import Fibers.Proofs.Strand.Frames
import Mathlib.Order.Interval.Finset.Nat

/-!
# Finalizers

An effect is left with an outcome, its finalizer is taken off and becomes the next effect, and the
outcome waits under it. There are two polls between the outcome and the first step of the finalizer.

## Main results

`Strand.Stretch.honoured_iff`: the finalizer is started once and is carried to its own end before
anything under it goes on, exactly if no interruption takes effect between the outcome and that end.
`Strand.Stretch.finalizer_starts`: without one, the finalizer is started in the third step.

## Proof strategy

A fiber that has left the effect waits to start the finalizer, or is cancelled, or is above the
outcome, or passes the outcome on. Each of these has a lemma about one move; `Past` adds what has
happened since the effect was left, and `past` collects a whole stretch.
-/

namespace Fibers.Strand

variable {σ : Type} {effect : Node σ} {exit : Exit Erased} {stack : List (Frame σ)}
  {before after : Strand σ}

/-! ### What becomes of an outcome -/

/-- An outcome that was kept under a finalizer is passed on to a stack. -/
inductive Passing (exit : Exit Erased) (stack : List (Frame σ)) : Strand σ → Prop where
  | built (holding : Holding) :
      Passing exit stack ⟨.active (.building (.done (.ofExit exit))) stack, holding, false⟩
  | polling (holding : Holding) (calling : Bool) :
      Passing exit stack ⟨.active (.node (.ofExit exit)) stack, holding, calling⟩
  | raising {cause : Cause} (failed : exit = .failure cause) (holding : Holding) :
      Passing exit stack ⟨.active (.raising (.done cause)) stack, holding, false⟩
  | passed {strand : Strand σ} (reaches : strand.place.Reaches stack exit) :
      Passing exit stack strand
  | cancelled {strand : Strand σ} (h : strand.Cancelled (.ofExit exit) stack) :
      Passing exit stack strand

theorem Passing.moves (h : before.Passing exit stack) (moves : before.Moves after)
    (inside : ∀ exit, ¬before.place.Reaches stack exit) : after.Passing exit stack := by
  cases h with
  | built holding =>
    rcases moves.waits_or_steps with ⟨holding', rfl, _⟩ | ⟨holding', input, _, step⟩
    · exact .built holding'
    · obtain ⟨-, rfl⟩ := step.of_built
      exact .polling holding' false
  | polling holding calling =>
    rcases moves.waits_or_steps with ⟨holding', rfl, _⟩ | ⟨holding', input, _, step⟩
    · exact .polling holding' calling
    · rcases step.of_polling with ⟨due, rfl⟩ | ⟨_, meaning⟩
      · exact .cancelled (.polling _ _ rfl)
      · cases exit with
        | success value =>
          cases meaning
          exact .passed (.value value)
        | failure cause =>
          cases meaning
          exact .raising rfl holding'
  | raising failed holding =>
    rcases moves.waits_or_steps with ⟨holding', rfl, _⟩ | ⟨holding', input, _, step⟩
    · exact .raising failed holding'
    · obtain ⟨-, rfl⟩ := step.of_raised
      exact .passed (failed ▸ .cause _ [])
  | passed reaches => exact absurd reaches (inside exit)
  | cancelled h => exact .cancelled (h.moves moves inside)

/-! ### What becomes of a finalizer -/

/-- The frame that keeps an outcome while a finalizer runs. -/
def keeper (exit : Exit Erased) : Frame σ := .apply (.constant (.ofExit exit))

/-- A finalizer is started: it was the next effect, and now it runs above the outcome. -/
def Starts (effect : Node σ) (exit : Exit Erased) (stack : List (Frame σ))
    (before after : Strand σ) : Prop :=
  before.place = .active (.node (effect.andThen (.ofExit exit))) stack ∧
    after.place = .active (.node effect) (keeper exit :: stack)

theorem andThen_ne_ofExit (effect : Node σ) (exit exit' : Exit Erased) :
    effect.andThen (.ofExit exit) ≠ .ofExit exit' := by
  cases exit' <;> exact nofun

theorem not_starts_of_above {frame : Frame σ} (above : frame :: stack <:+ before.place.stack) :
    ¬Starts effect exit stack before after := by
  rintro ⟨place, _⟩
  rw [place] at above
  have := above.length_le
  simp only [Place.stack, List.length_cons] at this
  omega

theorem not_starts_of_reaches {stack' : List (Frame σ)} {exit' : Exit Erased}
    (reaches : before.place.Reaches stack' exit') : ¬Starts effect exit stack before after := by
  rintro ⟨place, _⟩
  rw [place] at reaches
  cases reaches

theorem Cancelled.not_starts {current : Node σ} (h : before.Cancelled current stack) :
    ¬Starts effect exit stack before after := by
  cases h <;> exact not_starts_of_above List.suffix_rfl

theorem Passing.not_starts (h : before.Passing exit stack) :
    ¬Starts effect exit stack before after := by
  cases h with
  | passed reaches => exact not_starts_of_reaches reaches
  | cancelled h => exact h.not_starts
  | polling =>
    cases exit <;> exact nofun
  | built | raising => exact nofun

/-- A finalizer waits to be started; its fiber has taken some steps towards it. -/
inductive Waiting (effect : Node σ) (exit : Exit Erased) (stack : List (Frame σ)) :
    Nat → Strand σ → Prop where
  | left {strand : Strand σ}
      (reaches : strand.place.Reaches (.fold (.finalizer effect) :: stack) exit) :
      Waiting effect exit stack 0 strand
  | built (holding : Holding) : Waiting effect exit stack 1
      ⟨.active (.building (.done (effect.andThen (.ofExit exit)))) stack, holding, false⟩
  | polling (holding : Holding) (calling : Bool) : Waiting effect exit stack 2
      ⟨.active (.node (effect.andThen (.ofExit exit))) stack, holding, calling⟩

theorem Waiting.le_two {age : Nat} (h : before.Waiting effect exit stack age) : age ≤ 2 := by
  cases h <;> omega

/-- A finalizer that waits has not been left. -/
theorem Waiting.not_reaches {age : Nat} {exit' : Exit Erased} {stack' : List (Frame σ)}
    (h : before.Waiting effect exit stack age)
    (under : stack' = stack ∨ stack' = keeper exit :: stack) :
    ¬before.place.Reaches stack' exit' := by
  intro reaches
  cases h with
  | built | polling => cases reaches
  | left left =>
    have above := left.above
    rcases under with rfl | rfl
    · exact reaches.not_above_fold above
    · have under : stack <:+ before.place.stack := (List.suffix_cons _ _).trans above
      have above' := reaches.above
      have same := List.suffix_of_suffix_length_le above above' (by simp)
      cases List.suffix_cons_iff.mp same with
      | inl same => cases same
      | inr same =>
        have := same.length_le
        rw [List.length_cons] at this
        omega

/-- The next step brings a finalizer nearer to its start, unless an interruption takes effect. -/
theorem Waiting.moves {age : Nat} (h : before.Waiting effect exit stack age)
    (moves : before.Moves after) :
    (¬Interrupted before after ∧ ¬Starts effect exit stack before after ∧
        ((after.place = before.place ∧ after.Waiting effect exit stack age) ∨
          after.Waiting effect exit stack (age + 1))) ∨
      (¬Interrupted before after ∧ Starts effect exit stack before after) ∨
      (Interrupted before after ∧ ¬Starts effect exit stack before after ∧
        after.Cancelled (effect.andThen (.ofExit exit)) stack) := by
  have calm {holding : Holding} {place place' : Place σ} {calling calling' : Bool}
      (asked : holding = before.holding ∨ holding = before.holding.request) :
      ¬Interrupted ⟨place, before.holding, calling⟩ ⟨place', holding, calling'⟩ := by
    rintro ⟨fresh, late⟩
    cases (finalizing_of_asked asked).symm.trans late |>.symm.trans fresh
  cases h with
  | left reaches =>
    have unstarted : ¬Starts effect exit stack before after := not_starts_of_reaches reaches
    rcases moves.waits_or_steps with ⟨holding', rfl, asked⟩ | ⟨holding', input, asked, step⟩
    · exact .inl ⟨calm asked, unstarted, .inl ⟨rfl, .left reaches⟩⟩
    · obtain ⟨-, rfl⟩ := step.of_reaches_fold reaches
      rw [Handler.receive_finalizer] at unstarted ⊢
      exact .inl ⟨calm asked, unstarted, .inr (.built holding')⟩
  | built holding =>
    rcases moves.waits_or_steps with ⟨holding', rfl, asked⟩ | ⟨holding', input, asked, step⟩
    · exact .inl ⟨calm asked, nofun, .inl ⟨rfl, .built holding'⟩⟩
    · obtain ⟨-, rfl⟩ := step.of_built
      exact .inl ⟨calm asked, nofun, .inr (.polling holding' false)⟩
  | polling holding calling =>
    rcases moves.waits_or_steps with ⟨holding', rfl, asked⟩ | ⟨holding', input, asked, step⟩
    · refine .inl ⟨calm asked, ?_, .inl ⟨rfl, .polling holding' calling⟩⟩
      rintro ⟨_, started⟩
      exact Place.push_ne started.symm
    · rcases step.of_polling with ⟨due, rfl⟩ | ⟨_, meaning⟩
      -- The interruption comes first: the finalizer is kept, and never interpreted.
      · refine .inr (.inr ⟨⟨?_, rfl⟩, ?_, .polling _ _ rfl⟩)
        · rw [← finalizing_of_asked asked]
          exact finalizing_of_due due
        · rintro ⟨_, started⟩
          have frames := List.cons.inj (Place.active.inj started).2
          have kept := Continuation.constant.inj (Frame.apply.inj frames.1)
          exact andThen_ne_ofExit effect exit exit kept
      · cases meaning
        exact .inr (.inl ⟨calm asked, rfl, rfl⟩)

/-- A finalizer has come to its end, and its stack has not been reached yet. -/
inductive Concluded (exit : Exit Erased) (stack : List (Frame σ)) : Strand σ → Prop where
  | ended {strand : Strand σ} {result : Exit Erased}
      (reaches : strand.place.Reaches (keeper exit :: stack) result) : Concluded exit stack strand
  | passing {strand : Strand σ} (passing : strand.Passing exit stack) : Concluded exit stack strand

theorem Concluded.not_starts (h : before.Concluded exit stack) :
    ¬Starts effect exit stack before after := by
  cases h with
  | ended reaches => exact not_starts_of_reaches reaches
  | passing passing => exact passing.not_starts

theorem Concluded.moves (h : before.Concluded exit stack) (moves : before.Moves after)
    (inside : ∀ exit, ¬before.place.Reaches stack exit) : after.Concluded exit stack := by
  cases h with
  | passing passing => exact .passing (passing.moves moves inside)
  | @ended result reaches =>
    cases result with
    | failure cause => exact absurd reaches.of_apply (inside _)
    | success value =>
      rcases moves.waits_or_steps with ⟨holding', rfl, _⟩ | ⟨holding', input, _, step⟩
      · exact .ended reaches
      · obtain ⟨-, rfl⟩ := step.of_reaches_apply reaches
        exact .passing (.built holding')

/-! ### What has happened since an effect was left -/

/-- A finalizer is not started between two moments. -/
def Unstarted (effect : Node σ) (exit : Exit Erased) (stack : List (Frame σ))
    (strands : Nat → Strand σ) (first last : Nat) : Prop :=
  ∀ n, first ≤ n → n < last → ¬Starts effect exit stack (strands n) (strands (n + 1))

/-- A finalizer does not come to its end before a moment. -/
def Unended (exit : Exit Erased) (stack : List (Frame σ)) (strands : Nat → Strand σ)
    (first last : Nat) : Prop :=
  ∀ n, first ≤ n → n < last → ∀ result, ¬(strands n).place.Reaches (keeper exit :: stack) result

/-- How often a fiber changes its place between two moments. -/
noncomputable def changes (strands : Nat → Strand σ) (first last : Nat) : Nat := by
  classical
  exact ((Finset.Ico first last).filter fun n => (strands (n + 1)).place ≠ (strands n).place).card

theorem changes_self (strands : Nat → Strand σ) (first : Nat) :
    changes strands first first = 0 := by
  simp [changes]

theorem changes_succ_of_eq {strands : Nat → Strand σ} {first last : Nat}
    (same : (strands (last + 1)).place = (strands last).place) :
    changes strands first (last + 1) ≤ changes strands first last := by
  classical
  refine Finset.card_le_card fun n mem => ?_
  simp only [Finset.mem_filter, Finset.mem_Ico] at mem ⊢
  refine ⟨⟨mem.1.1, ?_⟩, mem.2⟩
  rcases Nat.lt_succ_iff_lt_or_eq.mp mem.1.2 with lt | rfl
  · exact lt
  · exact absurd same mem.2

theorem changes_succ_le (strands : Nat → Strand σ) (first last : Nat) :
    changes strands first (last + 1) ≤ changes strands first last + 1 := by
  classical
  refine le_trans (Finset.card_le_card fun n mem => ?_) (Finset.card_insert_le last _)
  simp only [Finset.mem_filter, Finset.mem_Ico, Finset.mem_insert] at mem ⊢
  rcases Nat.lt_succ_iff_lt_or_eq.mp mem.1.2 with lt | rfl
  · exact .inr ⟨⟨mem.1.1, lt⟩, mem.2⟩
  · exact .inl rfl

theorem forall_lt_succ {holds : Nat → Prop} {first last : Nat}
    (before : ∀ n, first ≤ n → n < last → holds n) (now : holds last) :
    ∀ n, first ≤ n → n < last + 1 → holds n := by
  intro n low high
  rcases Nat.lt_succ_iff_lt_or_eq.mp high with lt | rfl
  · exact before n low lt
  · exact now

/-- A finalizer was started, at one moment only, and nothing came in between. -/
structure Started (effect : Node σ) (exit : Exit Erased) (stack : List (Frame σ))
    (strands : Nat → Strand σ) (left start now : Nat) : Prop where
  left_le : left ≤ start
  lt_now : start < now
  starts : Starts effect exit stack (strands start) (strands (start + 1))
  once : ∀ n, left ≤ n → n < now → Starts effect exit stack (strands n) (strands (n + 1)) →
    n = start
  calm : Calm strands left (start + 1)

theorem Started.succ {strands : Nat → Strand σ} {left start now : Nat}
    (h : Started effect exit stack strands left start now)
    (unstarted : ¬Starts effect exit stack (strands now) (strands (now + 1))) :
    Started effect exit stack strands left start (now + 1) :=
  ⟨h.left_le, Nat.lt_succ_of_lt h.lt_now, h.starts,
    forall_lt_succ h.once fun starts => absurd starts unstarted, h.calm⟩

/-- What has happened since an effect was left. -/
inductive Past (effect : Node σ) (exit : Exit Erased) (stack : List (Frame σ))
    (strands : Nat → Strand σ) (left now : Nat) : Prop where
  | waiting {age : Nat} (waiting : (strands now).Waiting effect exit stack age)
      (calm : Calm strands left now) (unstarted : Unstarted effect exit stack strands left now)
      (unended : Unended exit stack strands left now)
      (changes : changes strands left now ≤ age)
  | skipped {lost : Nat} (left_le : left ≤ lost) (lt_now : lost < now)
      (interrupted : Interrupted (strands lost) (strands (lost + 1)))
      (unended : Unended exit stack strands left (lost + 1))
      (unstarted : Unstarted effect exit stack strands left now)
      (cancelled : (strands now).Cancelled (effect.andThen (.ofExit exit)) stack)
  | running {start : Nat} (started : Started effect exit stack strands left start now)
      (above : keeper exit :: stack <:+ (strands now).place.stack)
      (unended : Unended exit stack strands left now)
  | concluded {start finish : Nat} {result : Exit Erased}
      (started : Started effect exit stack strands left start now)
      (start_lt : start < finish) (le_now : finish ≤ now)
      (reaches : (strands finish).place.Reaches (keeper exit :: stack) result)
      (unended : Unended exit stack strands left finish)
      (concluded : (strands now).Concluded exit stack)

theorem Past.succ {strands : Nat → Strand σ} {left now : Nat}
    (h : Past effect exit stack strands left now) (le : left ≤ now)
    (moves : (strands now).Moves (strands (now + 1)))
    (inside : ∀ exit, ¬(strands now).place.Reaches stack exit) :
    Past effect exit stack strands left (now + 1) := by
  cases h with
  | waiting waiting calm unstarted unended count =>
    have unended' : Unended exit stack strands left (now + 1) :=
      forall_lt_succ unended fun _ => waiting.not_reaches (.inr rfl)
    rcases waiting.moves moves with
      ⟨calm', unstarted', ⟨same, waiting'⟩ | waiting'⟩ | ⟨calm', starts⟩ |
      ⟨interrupted, unstarted', cancelled⟩
    · exact .waiting waiting' (forall_lt_succ calm calm') (forall_lt_succ unstarted unstarted')
        unended' ((changes_succ_of_eq same).trans count)
    · exact .waiting waiting' (forall_lt_succ calm calm') (forall_lt_succ unstarted unstarted')
        unended' ((changes_succ_le strands left now).trans (Nat.succ_le_succ count))
    -- It starts right now, and it has not started before.
    · have above : keeper exit :: stack <:+ (strands (now + 1)).place.stack := by
        rw [starts.2]
        exact List.suffix_rfl
      have once : ∀ n, left ≤ n → n < now + 1 →
          Starts effect exit stack (strands n) (strands (n + 1)) → n = now :=
        forall_lt_succ (fun n low high starts => absurd starts (unstarted n low high)) fun _ => rfl
      exact .running ⟨le, Nat.lt_succ_self now, starts, once, forall_lt_succ calm calm'⟩ above
        unended'
    · exact .skipped le (Nat.lt_succ_self now) interrupted unended'
        (forall_lt_succ unstarted unstarted') cancelled
  | skipped left_le lt_now interrupted unended unstarted cancelled =>
    exact .skipped left_le (Nat.lt_succ_of_lt lt_now) interrupted unended
      (forall_lt_succ unstarted cancelled.not_starts) (cancelled.moves moves inside)
  | @running start started above unended =>
    have unstarted' : ¬Starts effect exit stack (strands now) (strands (now + 1)) :=
      not_starts_of_above above
    by_cases reached : ∃ result, (strands now).place.Reaches (keeper exit :: stack) result
    -- The finalizer has come down to the frame that keeps the exit.
    · obtain ⟨result, reaches⟩ := reached
      exact .concluded (started.succ unstarted') started.lt_now (Nat.le_succ now) reaches unended
        ((Concluded.ended reaches).moves moves inside)
    · have unreached := not_exists.mp reached
      exact .running (started.succ unstarted') (moves.above above unreached)
        (forall_lt_succ unended unreached)
  | concluded started start_lt le_now reaches unended concluded =>
    exact .concluded (started.succ concluded.not_starts) start_lt (Nat.le_succ_of_le le_now)
      reaches unended
      (concluded.moves moves inside)

theorem Stretch.past {strands : Nat → Strand σ} {left now : Nat}
    (stretch : Stretch strands left now) (le : left ≤ now)
    (reaches : (strands left).place.Reaches (.fold (.finalizer effect) :: stack) exit)
    (inside : ∀ n, left ≤ n → n < now → ∀ exit, ¬(strands n).place.Reaches stack exit) :
    Past effect exit stack strands left now := by
  induction now, le using Nat.le_induction with
  | base =>
    have never {holds : Nat → Prop} (n : Nat) (low : left ≤ n) (high : n < left) : holds n :=
      absurd low (Nat.not_le_of_gt high)
    exact .waiting (.left reaches) never never never (changes_self strands left).le
  | succ now le ih =>
    have past := ih (stretch.mono le_rfl (Nat.le_succ now)) fun n low high =>
      inside n low (Nat.lt_succ_of_lt high)
    exact past.succ le (stretch now le (Nat.lt_succ_self now))
      (inside now le (Nat.lt_succ_self now))

/-! ### The guarantee -/

/-- A finalizer is started at exactly one moment of a stretch, after its effect was left, and comes
to its own end: no interruption takes effect while it runs. -/
def Honoured (effect : Node σ) (exit : Exit Erased) (stack : List (Frame σ))
    (strands : Nat → Strand σ) (first left last : Nat) : Prop :=
  ∃ start finish result, left ≤ start ∧ start < finish ∧ finish ≤ last ∧
    Starts effect exit stack (strands start) (strands (start + 1)) ∧
    (∀ n, first ≤ n → n < last → Starts effect exit stack (strands n) (strands (n + 1)) →
      n = start) ∧
    (strands finish).place.Reaches (keeper exit :: stack) result ∧ Calm strands start finish

/-- No interruption takes effect after an effect was left, unless its finalizer has come to an
end. -/
def Undisturbed (exit : Exit Erased) (stack : List (Frame σ)) (strands : Nat → Strand σ)
    (left last : Nat) : Prop :=
  ∀ n, left ≤ n → n < last → Interrupted (strands n) (strands (n + 1)) →
    ∃ finish result, left ≤ finish ∧ finish ≤ n ∧
      (strands finish).place.Reaches (keeper exit :: stack) result

section Guarantee

variable {strands : Nat → Strand σ} {first left last : Nat}

theorem Started.honoured_iff {start finish : Nat} {result : Exit Erased}
    (started : Started effect exit stack strands left start last)
    (early : Unstarted effect exit stack strands first left)
    (start_lt : start < finish) (le_last : finish ≤ last)
    (reaches : (strands finish).place.Reaches (keeper exit :: stack) result)
    (unended : Unended exit stack strands left finish) :
    Honoured effect exit stack strands first left last ↔
      Undisturbed exit stack strands left last := by
  constructor
  · rintro ⟨start', finish', result', low', lt', high', starts', _, reaches', calm⟩ n low high
      interrupted
    obtain rfl := started.once start' low' (by omega) starts'
    -- Before its start nothing took effect, and while it runs nothing does.
    have finished : finish ≤ n := by
      by_contra early
      have before : start' < n := by
        by_contra late
        exact started.calm n low (by omega) interrupted
      have later : finish ≤ finish' := by
        by_contra sooner
        exact unended finish' (by omega) (by omega) result' reaches'
      exact calm n before.le (by omega) interrupted
    exact ⟨finish, result, by have := started.left_le; omega, finished, reaches⟩
  · intro undisturbed
    refine ⟨start, finish, result, started.left_le, start_lt, le_last, started.starts, ?_, reaches,
      ?_⟩
    · intro n low high starts
      by_cases before : n < left
      · exact absurd starts (early n low before)
      · exact started.once n (Nat.le_of_not_lt before) high starts
    · intro n low high interrupted
      obtain ⟨finish', result', low', high', reaches'⟩ :=
        undisturbed n (started.left_le.trans low) (by omega) interrupted
      exact unended finish' low' (by omega) result' reaches'

/-- The finalizer of an effect is started once and is carried to its own end before anything under
it goes on, exactly if no interruption takes effect after the effect was left and before that end.
-/
theorem Stretch.honoured_iff {exit' : Exit Erased} (stretch : Stretch strands first last)
    (above : .fold (.finalizer effect) :: stack <:+ (strands first).place.stack)
    (leaves : Leaves strands first last stack exit') :
    ∃ left exit, left < last ∧
      Leaves strands first left (.fold (.finalizer effect) :: stack) exit ∧
      (Honoured effect exit stack strands first left last ↔
        Undisturbed exit stack strands left last) := by
  have reached : ∃ n, first ≤ n ∧ n ≤ last ∧ ∃ exit,
      (strands n).place.Reaches (.fold (.finalizer effect) :: stack) exit := by
    by_contra never
    push Not at never
    have still := stretch.above leaves.le above fun n low high exit =>
      never n low high.le exit
    exact leaves.reaches.not_above_fold still
  obtain ⟨n, low, high, exit₀, reaches₀⟩ := reached
  obtain ⟨left, exit, le, left'⟩ := exists_leaves low reaches₀
  have lt : left < last := by
    refine lt_of_le_of_ne (le.trans high) ?_
    rintro rfl
    exact leaves.reaches.not_above_fold left'.reaches.above
  refine ⟨left, exit, lt, left', ?_⟩
  have early : Unstarted effect exit stack strands first left := by
    intro n low high
    have still := (stretch.mono le_rfl (high.le.trans lt.le)).above low above
      fun i low' high' => left'.inside i low' (high'.trans high)
    exact not_starts_of_above still
  have past : Past effect exit stack strands left last :=
    (stretch.mono left'.le le_rfl).past lt.le left'.reaches
      fun n low high => leaves.inside n (left'.le.trans low) high
  -- Everything under the stack is reached at `last`, so the finalizer can no longer be waiting.
  cases past with
  | waiting waiting => exact absurd leaves.reaches (waiting.not_reaches (.inl rfl))
  | @skipped lost left_le lt_now interrupted unended unstarted =>
    constructor
    · rintro ⟨start, finish, _, low, start_lt, le_last, starts, _⟩
      exact absurd starts (unstarted start low (by omega))
    · intro undisturbed
      obtain ⟨finish, result, low, high, reaches⟩ :=
        undisturbed lost left_le lt_now interrupted
      exact absurd reaches (unended finish low (by omega) result)
  | running started above unended =>
    exact started.honoured_iff early started.lt_now le_rfl
      (leaves.reaches.of_above_apply above) unended
  | concluded started start_lt le_now reaches unended =>
    exact started.honoured_iff early start_lt le_now reaches unended

theorem Past.started_or_waiting {now : Nat} (past : Past effect exit stack strands left now)
    (le_last : now ≤ last) (undisturbed : Undisturbed exit stack strands left last) :
    (∃ start, left ≤ start ∧ start < last ∧
        Starts effect exit stack (strands start) (strands (start + 1))) ∨
      ∃ age, (strands now).Waiting effect exit stack age ∧ changes strands left now ≤ age := by
  cases past with
  | @waiting age waiting _ _ _ count => exact .inr ⟨age, waiting, count⟩
  | @skipped lost left_le lt_now interrupted unended =>
    obtain ⟨finish, result, low, high, reached⟩ :=
      undisturbed lost left_le (lt_now.trans_le le_last) interrupted
    exact absurd reached (unended finish low (by omega) result)
  | @running start started | @concluded start _ _ started =>
    exact .inl ⟨start, started.left_le, started.lt_now.trans_le le_last, started.starts⟩

/-- Without an interruption the finalizer of an effect is started in the third step after the effect
was left. -/
theorem Stretch.finalizer_starts (stretch : Stretch strands left last) (le : left ≤ last)
    (reaches : (strands left).place.Reaches (.fold (.finalizer effect) :: stack) exit)
    (undisturbed : Undisturbed exit stack strands left last)
    (active : 2 < changes strands left last) :
    ∃ start, left ≤ start ∧ start < last ∧
      Starts effect exit stack (strands start) (strands (start + 1)) := by
  by_cases under : ∃ n exit', left ≤ n ∧ n ≤ last ∧ (strands n).place.Reaches stack exit'
  · -- Who has come down to the frames under the finalizer is past its start.
    obtain ⟨n, _, low, high, reaches'⟩ := under
    obtain ⟨moment, exit', le', first⟩ := exists_leaves low reaches'
    have past := (stretch.mono le_rfl (le'.trans high)).past first.le reaches first.inside
    rcases past.started_or_waiting (le'.trans high) undisturbed with started | ⟨_, waiting, _⟩
    · exact started
    · exact absurd first.reaches (waiting.not_reaches (.inl rfl))
  · have past := stretch.past le reaches fun n low high exit' reaches' =>
      under ⟨n, exit', low, high.le, reaches'⟩
    rcases past.started_or_waiting le_rfl undisturbed with started | ⟨age, waiting, count⟩
    · exact started
    · have := waiting.le_two
      omega

end Guarantee

end Fibers.Strand
