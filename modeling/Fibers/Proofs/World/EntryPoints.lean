import Fibers.Proofs.World.Callers
import Fibers.Proofs.World.Deadlock

/-!
# Entry points

Ordinary code runs an effect on a new root fiber and learns its exit in a callback, by blocking, by
blocking for some time, or by asking the handle. The root fiber may be run before the call returns,
by another thread, or in a loop that is nested in the run of another fiber.

## Main results

`World.entry_points_agree`: whoever has started a root fiber is told its exit once, before all who
have asked for it later, and it is the exit that the handle shows. A caller that blocks goes on with
this exit, and one that gives up has not been brought it.

## Proof strategy

A thread that has called a caller which blocks does nothing but post the exit and open the mailbox
(`World.Run.brings`). So whatever is in a mailbox is traced back to the one end of one fiber
(`World.Letter`, by induction on the run).
-/

namespace Fibers

variable {σ : Type} {A : Ty}

namespace Runner

/-- The rest of a call that blocks until a mailbox opens or the deadline has come. -/
def patient (A : Ty) (mailbox : MailboxId) (timeout deadline : Nat) :
    Code σ (Option (Exit A.Carrier)) :=
  .wait mailbox (some deadline) fun
    | .opened slot => .done (slot.map (Exit.recover A))
    | .timedOut => .report (.waitAbandoned timeout) fun _ => .done none

/-- The rest of a call that has given up. -/
def givesUp (timeout : Nat) : Code σ (Option (Exit A.Carrier)) :=
  .report (.waitAbandoned timeout) fun _ => .done none

section Performs

variable {heap : Heap σ} {mailbox : MailboxId} {exit : Exit A.Carrier} {timeout deadline : Nat}
  {thread : Thread σ} {α : Type} {keep : Code σ α → Activation σ}

theorem perform_blocked_of_shut (shut : heap.isOpen mailbox = false)
    (f : Exit A.Carrier → Code σ α) :
    Machine.perform heap thread keep ((blocked A mailbox).bind f) =
      (heap, thread.push (keep ((blocked A mailbox).bind f))) := by
  rw [blocked, Action.bind, Machine.perform, shut]
  rfl

theorem perform_patient (shown : heap.isOpen mailbox = true)
    (slot : heap.slot mailbox = some exit.erase) (f : Option (Exit A.Carrier) → Code σ α) :
    Machine.perform heap thread keep ((patient A mailbox timeout deadline).bind f) =
      (heap, thread.push (keep (f (some exit)))) := by
  simp only [patient, Action.bind, Machine.perform, shown, if_true, slot, Option.map_some,
    Exit.recover_erase]

theorem perform_patient_of_shut (shut : heap.isOpen mailbox = false)
    (f : Option (Exit A.Carrier) → Code σ α) :
    Machine.perform heap thread keep ((patient A mailbox timeout deadline).bind f) =
      (heap, if deadline ≤ heap.now then thread.push (keep ((givesUp timeout).bind f))
        else thread.push (keep ((patient A mailbox timeout deadline).bind f))) := by
  simp only [patient, Action.bind, Machine.perform, shut, Bool.false_eq_true, if_false,
    Option.any_some, decide_eq_true_eq]
  split <;> rfl

end Performs

end Runner

namespace World

open Effect

variable {run : Nat → World σ} {n m i j : Nat} {thread : Thread σ} {id : FiberId} {type : Ty}
  {mailbox : MailboxId} {exit : Exit Erased} {below : List (Activation σ)}
  {later : List (Observer σ)}

/-! ### Mail on its way -/

/-- A thread posts an exit into a mailbox. -/
def PostsAt (run : Nat → World σ) (i n : Nat) (mailbox : MailboxId) (exit : Exit Erased) : Prop :=
  ∃ thread, StepsAt run n i thread ∧ thread.next? = some (.posting mailbox exit)

/-- A thread opens a mailbox. -/
def OpensAt (run : Nat → World σ) (i n : Nat) (mailbox : MailboxId) : Prop :=
  ∃ thread, StepsAt run n i thread ∧ thread.next? = some (.opening mailbox)

/-- What a thread has to post or to open is all that it does next, and this is where it comes from.
-/
inductive Brings (run : Nat → World σ) (i n : Nat) (thread : Thread σ) : Prop where
  | nothing (none : thread.mail = [])
  | posting {k depth : Nat} {type : Ty} {mailbox : MailboxId} {exit : Exit Erased}
      {rest : List (Activation σ)} (before : k < n)
      (calls : CallsAt run i depth k (exit, .answer type mailbox)) (pauses : Pauses run i (k + 1) n)
      (calm : thread.panicking = none)
      (control : thread.control = .posting mailbox (exit.recover type).erase :: rest)
      (under : rest.filter Activation.isMail = [])
  | opening {k : Nat} {mailbox : MailboxId} {exit : Exit Erased} {rest : List (Activation σ)}
      (before : k < n) (posts : PostsAt run i k mailbox exit) (pauses : Pauses run i (k + 1) n)
      (calm : thread.panicking = none) (control : thread.control = .opening mailbox :: rest)
      (under : rest.filter Activation.isMail = [])

theorem Brings.under {activation : Activation σ} {rest : List (Activation σ)}
    (brings : Brings run i n thread) (control : thread.control = activation :: rest) :
    rest.filter Activation.isMail = [] := by
  cases brings with
  | nothing none =>
    rw [Thread.mail_of_control control] at none
    exact (List.append_eq_nil_iff.mp none).2
  | posting _ _ _ _ control' under | opening _ _ _ _ control' under =>
    cases control.symm.trans control'
    exact under

/-- Only a step of its own brings mail to a thread. -/
theorem Run.mail_stayed (h : Run run) (known : (run (n + 1)).threads[i]? = some thread)
    (mail : thread.mail ≠ []) :
    (run n).threads[i]? = some thread ∨ ∃ before, StepsAt run n i before := by
  rcases h.get_cases known with old | commences | ⟨before, steps, _⟩
  · exact .inl old
  · -- What a thread begins with brings no mail.
    refine absurd (List.filter_eq_nil_iff.mpr fun activation mem => ?_) mail
    rcases commences.cases_of_mem mem with ⟨_, rfl⟩ | ⟨_, _, _, rfl⟩ | ⟨_, rfl⟩ <;>
      exact Bool.false_ne_true
  · exact .inr ⟨before, steps⟩

/-- A step leaves something to post on a thread only if it has called a caller, and something to
open only if it has posted. -/
theorem Brings.next (brings : Brings run i n thread) (steps : StepsAt run n i thread) :
    Brings run i (n + 1) (Machine.step (run n).heap thread).2 := by
  cases control : thread.control with
  | nil => exact .nothing (congrArg Prod.snd (Machine.mail_step_of_idle _ control))
  | cons activation rest =>
    have under := brings.under control
    cases panicking : thread.panicking with
    | some payload =>
      refine .nothing ?_
      exact (congrArg Prod.snd (Machine.mail_step_of_panicking _ panicking control)).trans under
    | none =>
      have step := Machine.step_of_next? (run n).heap panicking control
      have mail : (Machine.step (run n).heap thread).2.mail = activation.mailAfter := by
        have whole := congrArg Prod.snd (Machine.mail_step (run n).heap panicking control)
        exact whole.trans (by rw [under, List.append_nil])
      have next : thread.next? = some activation :=
        Thread.next?_eq_some_iff.mpr ⟨panicking, rest, control⟩
      cases activation with
      | posting mailbox exit =>
        rw [step]
        exact .opening n.lt_succ_self ⟨thread, steps, next⟩ (.empty run i _) panicking rfl under
      | notifying exit observers =>
        cases observers with
        | nil => exact .nothing mail
        | cons observer observers =>
          cases observer with
          | answer type mailbox =>
            -- An observer that answers brings a letter: the thread posts it next.
            have calls : CallsAt run i rest.length n (exit, .answer type mailbox) :=
              ⟨thread, observers, rest, steps, panicking, control, rfl⟩
            rw [step]
            exact .posting n.lt_succ_self calls (.empty run i _) panicking rfl under
          | resume | call => exact .nothing mail
      | program | callback | opening | loop | draining => exact .nothing mail

theorem Run.brings (h : Run run) (fresh : (run 0).Fresh)
    (known : (run n).threads[i]? = some thread) : Brings run i n thread := by
  induction n generalizing thread with
  | zero =>
    refine .nothing ?_
    rw [Thread.mail, (fresh.threads thread (List.mem_of_getElem? known)).2]
    rfl
  | succ n ih =>
    by_cases stepped : ∃ before, StepsAt run n i before
    · obtain ⟨before, steps⟩ := stepped
      cases steps.after.symm.trans known
      exact (ih steps.before).next steps
    · have still (before : Thread σ) : ¬StepsAt run n i before :=
        fun steps => stepped ⟨before, steps⟩
      by_cases none : thread.mail = []
      · exact .nothing none
      · cases ih ((h.mail_stayed known none).resolve_right stepped) with
        | nothing none' => exact absurd none' none
        | posting before calls pauses calm control under =>
          exact .posting (Nat.lt_succ_of_lt before) calls (pauses.next still) calm control under
        | opening before posts pauses calm control under =>
          exact .opening (Nat.lt_succ_of_lt before) posts (pauses.next still) calm control under

/-- What is posted has just been told to a caller. -/
theorem PostsAt.called (posts : PostsAt run i n mailbox exit) (h : Run run)
    (fresh : (run 0).Fresh) :
    ∃ k depth type last, k < n ∧ CallsAt run i depth k (last, .answer type mailbox) ∧
      Pauses run i (k + 1) n ∧ exit = (last.recover type).erase := by
  obtain ⟨thread, steps, next⟩ := posts
  obtain ⟨calm, rest, control⟩ := Thread.next?_eq_some_iff.mp next
  cases h.brings fresh steps.before with
  | nothing none =>
    rw [Thread.mail_of_control control] at none
    cases none
  | posting before calls pauses _ control' _ =>
    cases control.symm.trans control'
    exact ⟨_, _, _, _, before, calls, pauses, rfl⟩
  | opening _ _ _ _ control' _ => cases control.symm.trans control'

/-- What is opened has just been posted into. -/
theorem OpensAt.posted (opens : OpensAt run i n mailbox) (h : Run run) (fresh : (run 0).Fresh) :
    ∃ k exit, k < n ∧ PostsAt run i k mailbox exit ∧ Pauses run i (k + 1) n := by
  obtain ⟨thread, steps, next⟩ := opens
  obtain ⟨calm, rest, control⟩ := Thread.next?_eq_some_iff.mp next
  cases h.brings fresh steps.before with
  | nothing none =>
    rw [Thread.mail_of_control control] at none
    cases none
  | posting _ _ _ _ control' _ => cases control.symm.trans control'
  | opening before posts pauses _ control' _ =>
    cases control.symm.trans control'
    exact ⟨_, _, before, posts, pauses⟩

/-! ### Mailboxes -/

/-- Mailboxes change only in steps of threads. -/
def Untouched (run : Nat → World σ) : Prop :=
  ∀ n, (∀ i thread, ¬StepsAt run n i thread) →
    (run (n + 1)).heap.mailboxes = (run n).heap.mailboxes

/-- The moves of a machine that are not steps of threads leave mailboxes as they are. -/
theorem mailboxes_takeTask (index : Nat) (world : World σ) :
    (world.takeTask index).heap.mailboxes = world.heap.mailboxes := by
  rcases takeTask_cases index world with same | ⟨_, executor, _, rest, _, _, _, heap, _⟩
  · rw [same]
  · rw [heap]
    rfl

theorem mailboxes_advanceTo (time : Nat) (world : World σ) :
    (world.advanceTo time).heap.mailboxes = world.heap.mailboxes := rfl

theorem StepsAt.mailboxes (steps : StepsAt run n i thread) :
    (run (n + 1)).heap.mailboxes =
      match thread.next? with
      | some activation => (run n).heap.mailboxesAfter activation
      | none => (run n).heap.mailboxes := by
  rw [steps.heap]
  cases control : thread.control with
  | nil =>
    have idle : thread.next? = none := by
      rw [Thread.next?, control]
      cases thread.panicking <;> rfl
    rw [idle]
    exact congrArg Prod.fst (Machine.mail_step_of_idle _ control)
  | cons activation rest =>
    cases panicking : thread.panicking with
    | none =>
      rw [Thread.next?_eq_some_iff.mpr ⟨panicking, rest, control⟩]
      exact congrArg Prod.fst (Machine.mail_step _ panicking control)
    | some payload =>
      rw [Thread.next?, panicking]
      exact congrArg Prod.fst (Machine.mail_step_of_panicking _ panicking control)

/-- In one step a mailbox that has been made stays as it is, is posted into, or is opened. -/
theorem Untouched.cases (untouched : Untouched run)
    (made : mailbox.index < (run n).heap.mailboxes.size) :
    (run (n + 1)).heap.mailboxes[mailbox.index]? = (run n).heap.mailboxes[mailbox.index]? ∧
        (∀ i exit, ¬PostsAt run i n mailbox exit) ∧ (∀ i, ¬OpensAt run i n mailbox) ∨
      (∃ i exit, PostsAt run i n mailbox exit ∧ (run (n + 1)).heap.mailboxes[mailbox.index]? =
        (run n).heap.mailboxes[mailbox.index]?.map fun box => { box with slot := some exit }) ∨
      ∃ i, OpensAt run i n mailbox ∧ (run (n + 1)).heap.mailboxes[mailbox.index]? =
        (run n).heap.mailboxes[mailbox.index]?.map fun box =>
          { box with latch := box.latch.countDown } := by
  by_cases posts : ∃ i exit, PostsAt run i n mailbox exit
  · obtain ⟨i, exit, thread, steps, next⟩ := posts
    refine .inr (.inl ⟨i, exit, ⟨thread, steps, next⟩, ?_⟩)
    rw [steps.mailboxes, next]
    exact (Heap.getElem?_updateMailbox _ _ _ _).trans (if_pos rfl)
  by_cases opens : ∃ i, OpensAt run i n mailbox
  · obtain ⟨i, thread, steps, next⟩ := opens
    refine .inr (.inr ⟨i, ⟨thread, steps, next⟩, ?_⟩)
    rw [steps.mailboxes, next]
    exact (Heap.getElem?_updateMailbox _ _ _ _).trans (if_pos rfl)
  refine .inl ⟨?_, fun i exit own => posts ⟨i, exit, own⟩, fun i own => opens ⟨i, own⟩⟩
  by_cases stepped : ∃ i thread, StepsAt run n i thread
  · obtain ⟨i, thread, steps⟩ := stepped
    rw [steps.mailboxes]
    cases next : thread.next? with
    | none => rfl
    | some activation =>
      have pushed : (if activation.submits then (run n).heap.mailboxes.push {}
          else (run n).heap.mailboxes)[mailbox.index]? =
          (run n).heap.mailboxes[mailbox.index]? := by
        split
        · exact Array.getElem?_push_lt made |>.trans (Array.getElem?_eq_getElem made).symm
        · rfl
      cases activation with
      | posting other exit =>
        refine (Heap.getElem?_updateMailbox _ _ _ _).trans (if_neg fun own => posts ?_)
        exact ⟨i, exit, thread, steps, own ▸ next⟩
      | opening other =>
        refine (Heap.getElem?_updateMailbox _ _ _ _).trans (if_neg fun own => opens ?_)
        exact ⟨i, thread, steps, own ▸ next⟩
      | program | callback | loop | notifying | draining => exact pushed
  · rw [untouched n fun i thread steps => stepped ⟨i, thread, steps⟩]

theorem Untouched.grows (untouched : Untouched run) (le : n ≤ m) :
    (run n).heap.mailboxes.size ≤ (run m).heap.mailboxes.size := by
  induction m, le using Nat.le_induction with
  | base => exact le_rfl
  | succ m _ ih =>
    refine ih.trans ?_
    by_cases stepped : ∃ i thread, StepsAt run m i thread
    · obtain ⟨i, thread, steps⟩ := stepped
      have pushed (submits : Bool) : (run m).heap.mailboxes.size ≤
          (if submits then (run m).heap.mailboxes.push {} else (run m).heap.mailboxes).size := by
        cases submits <;> simp
      rw [steps.mailboxes]
      cases next : thread.next? with
      | none => exact le_rfl
      | some activation =>
        cases activation with
        | posting | opening => exact (Array.size_modify).ge
        | program | callback | loop | notifying | draining => exact pushed _
    · rw [untouched m fun i thread steps => stepped ⟨i, thread, steps⟩]

/-- A mailbox is made when the caller comes that will wait for it. -/
theorem RegistersAt.new_mailbox (registers : RegistersAt run i id n (.answer type mailbox)) :
    mailbox.index = (run n).heap.mailboxes.size ∧
      (run (n + 1)).heap.mailboxes = (run n).heap.mailboxes.push {} := by
  obtain ⟨thread, activation, target, steps, next, registered, _⟩ := registers
  obtain ⟨rfl, submits⟩ := (Activation.welcomes registered rfl).mailbox type mailbox rfl
  refine ⟨rfl, ?_⟩
  rw [steps.mailboxes, next]
  cases activation with
  | program | callback | loop => exact if_pos submits
  | posting | opening | notifying | draining => cases submits

/-- Only one caller waits for a mailbox. -/
theorem RegistersAt.mailbox_unique {id' : FiberId} {type' : Ty}
    (registers : RegistersAt run i id n (.answer type mailbox))
    (registers' : RegistersAt run j id' m (.answer type' mailbox)) (h : Run run)
    (untouched : Untouched run) : n = m ∧ id.index = id'.index ∧ type = type' := by
  have apart {n m : Nat} (early : n < m) (pushed : (run (n + 1)).heap.mailboxes.size =
      (run n).heap.mailboxes.size + 1) :
      (run n).heap.mailboxes.size < (run m).heap.mailboxes.size := by
    have grows := untouched.grows (Nat.succ_le_of_lt early)
    rw [pushed] at grows
    exact grows
  obtain ⟨index, pushed⟩ := registers.new_mailbox
  obtain ⟨index', pushed'⟩ := registers'.new_mailbox
  obtain rfl : n = m := by
    rcases lt_trichotomy n m with early | same | late
    · have less := apart early (by rw [pushed, Array.size_push])
      omega
    · exact same
    · have less := apart late (by rw [pushed', Array.size_push])
      omega
  -- At one moment there is one registration only.
  obtain ⟨thread, activation, target, steps, next, registered, own⟩ := registers
  obtain ⟨thread', activation', target', steps', next', registered', own'⟩ := registers'
  have same : id.index = id'.index := by
    rw [← own, ← own', (Activation.welcomes registered rfl).fiber,
      (Activation.welcomes registered' rfl).fiber]
  have progress := RegistersAt.progress
    ⟨thread, activation, target, steps, next, registered, own⟩ h
  have progress' := RegistersAt.progress
    ⟨thread', activation', target', steps', next', registered', own'⟩ h
  rw [← (run (n + 1)).heap.progress_congr same, ← (run n).heap.progress_congr same, progress,
    (run n).heap.progress_nextFiber (RegistersAt.next
      ⟨thread, activation, target, steps, next, registered, own⟩ rfl)] at progress'
  have observers : [Observer.answer type mailbox] = [.answer type' mailbox] :=
    Progress.running.inj progress'
  cases observers
  exact ⟨rfl, same, rfl⟩

/-! ### From the call to the caller -/

/-- A caller is called with the exit of its fiber. -/
def Called (run : Nat → World σ) (id : FiberId) (caller : Observer σ) (exit : Exit Erased)
    (i n : Nat) : Prop :=
  ∃ ended below later, Served run id caller exit i ended n below later

/-- A caller that blocks is called with the exit of its fiber, and the thread goes on by posting it.
-/
structure Posted (run : Nat → World σ) (id : FiberId) (type : Ty) (mailbox : MailboxId)
    (exit : Exit Erased) (i called posted : Nat) : Prop where
  calls : Called run id (.answer type mailbox) exit i called
  before : called < posted
  pauses : Pauses run i (called + 1) posted
  posts : PostsAt run i posted mailbox (exit.recover type).erase

/-- How far the exit of a fiber is on its way to a caller that blocks. Once it has been posted, the
next step of the thread opens the mailbox. -/
inductive Letter (run : Nat → World σ) (id : FiberId) (type : Ty) (mailbox : MailboxId)
    (n : Nat) : Prop where
  | unposted (box : (run n).heap.mailboxes[mailbox.index]? = some {})
      (none : ∀ k < n, ∀ i exit, ¬PostsAt run i k mailbox exit)
  | posted {exit : Exit Erased} {i called posted : Nat}
      (posts : Posted run id type mailbox exit i called posted) (before : posted < n)
      (pauses : Pauses run i (posted + 1) n)
      (box : (run n).heap.mailboxes[mailbox.index]? =
        some { slot := some (exit.recover type).erase })
  | opened {exit : Exit Erased} {i called posted opened : Nat}
      (posts : Posted run id type mailbox exit i called posted) (after : posted < opened)
      (pauses : Pauses run i (posted + 1) opened) (opens : OpensAt run i opened mailbox)
      (before : opened < n)
      (box : (run n).heap.mailboxes[mailbox.index]? =
        some { latch := ⟨0⟩, slot := some (exit.recover type).erase })

theorem Served.congr {id' : FiberId} {caller : Observer σ} {ended called : Nat}
    (served : Served run id' caller exit i ended called below later)
    (same : id.index = id'.index) : Served run id caller exit i ended called below later where
  running := ((run ended).heap.poll_congr same).trans served.running
  polled := ((run (ended + 1)).heap.poll_congr same).trans served.polled
  announces := served.announces
  before := served.before
  pauses := served.pauses
  calls := served.calls

theorem Called.unique {caller : Observer σ} {exit' : Exit Erased}
    (called : Called run id caller exit i n) (called' : Called run id caller exit' j m)
    (h : Run run) : exit = exit' ∧ i = j ∧ n = m := by
  obtain ⟨_, _, _, served⟩ := called
  obtain ⟨_, _, _, served'⟩ := called'
  obtain ⟨rfl, rfl, _, rfl, _⟩ := served.unique served' h
  exact ⟨rfl, rfl, rfl⟩

theorem Posted.unique {exit' : Exit Erased} {called called' : Nat}
    (posted : Posted run id type mailbox exit i called n)
    (posted' : Posted run id type mailbox exit' j called' m) (h : Run run) :
    exit = exit' ∧ i = j ∧ n = m := by
  obtain ⟨rfl, rfl, rfl⟩ := posted.calls.unique posted'.calls h
  obtain ⟨_, steps, _⟩ := posted.posts
  obtain ⟨_, steps', _⟩ := posted'.posts
  exact ⟨rfl, rfl, posted.pauses.unique steps posted.before posted'.pauses steps' posted'.before⟩

/-- Whatever is posted into a mailbox is the exit of the fiber whose caller waits for it. -/
theorem PostsAt.posted (posts : PostsAt run i m mailbox exit) (h : Run run)
    (fresh : (run 0).Fresh) (untouched : Untouched run)
    (registers : RegistersAt run j id n (.answer type mailbox)) :
    n < m ∧ ∃ last called, exit = (last.recover type).erase ∧
      Posted run id type mailbox last i called m := by
  obtain ⟨called, depth, type', last, before, calls, pauses, rfl⟩ := posts.called h fresh
  obtain ⟨id', _, k, ended, below, later, early, registers', _, served⟩ :=
    calls.served h fresh rfl
  obtain ⟨rfl, same, rfl⟩ := registers.mailbox_unique registers' h untouched
  have calls' : Called run id (.answer type mailbox) last i called :=
    ⟨ended, below, later, served.congr same⟩
  exact ⟨early.trans (served.before.trans before), last, called, rfl, calls', before, pauses, posts⟩

/-- A thread that has posted is about to open. -/
theorem PostsAt.opens (posts : PostsAt run i n mailbox exit) (h : Run run) (later : n < m)
    (pauses : Pauses run i (n + 1) m) (steps : StepsAt run m i thread) :
    OpensAt run i m mailbox := by
  obtain ⟨before, steps', next⟩ := posts
  obtain ⟨calm, rest, control⟩ := Thread.next?_eq_some_iff.mp next
  have step := Machine.step_of_next? (run n).heap calm control
  have busy : (Machine.step (run n).heap before).2.control = .opening mailbox :: rest := by
    rw [step]
    rfl
  have known := pauses.known h later steps'.after (by simp [busy])
  cases known.symm.trans steps.before
  refine ⟨_, steps, Thread.next?_eq_some_iff.mpr ⟨?_, rest, busy⟩⟩
  rw [step]
  exact calm

/-- A thread that has called a caller which blocks is about to post. -/
theorem Called.posts (called : Called run id (.answer type mailbox) exit i n) (h : Run run)
    (later : n < m) (pauses : Pauses run i (n + 1) m) (steps : StepsAt run m i thread) :
    Posted run id type mailbox exit i n m := by
  obtain ⟨_, _, _, served⟩ := called
  obtain ⟨before, rest, below, steps', calm, control, _⟩ := served.calls
  have step := Machine.step_of_next? (run n).heap calm control
  have busy : (Machine.step (run n).heap before).2.control =
      .posting mailbox (exit.recover type).erase :: .notifying exit rest :: below := by
    rw [step]
    rfl
  have known := pauses.known h later steps'.after (by simp [busy])
  cases known.symm.trans steps.before
  refine ⟨⟨_, _, _, served⟩, later, pauses, _, steps, Thread.next?_eq_some_iff.mpr ⟨?_, _, busy⟩⟩
  rw [step]
  exact calm

/-- In one step the exit stays where it is, is posted, or is shown to the caller. -/
theorem Letter.next (letter : Letter run id type mailbox m) (h : Run run) (fresh : (run 0).Fresh)
    (untouched : Untouched run) (registers : RegistersAt run j id n (.answer type mailbox))
    (made : mailbox.index < (run m).heap.mailboxes.size) :
    Letter run id type mailbox (m + 1) := by
  -- A second post would be another step of the thread that has called the caller.
  have once {exit exit' : Exit Erased} {i i' called posted : Nat} (before : posted < m)
      (posts : Posted run id type mailbox exit i called posted)
      (again : PostsAt run i' m mailbox exit') : False := by
    obtain ⟨_, _, _, _, posts'⟩ := again.posted h fresh untouched registers
    obtain ⟨_, _, same⟩ := posts.unique posts' h
    exact absurd same before.ne
  rcases untouched.cases made with ⟨same, unposted, unopened⟩ | ⟨i, exit, posts, box⟩ |
    ⟨i, opens, box⟩
  · cases letter with
    | unposted box none =>
      refine .unposted (same.trans box) fun k early => ?_
      rcases Nat.lt_succ_iff_lt_or_eq.mp early with old | rfl
      · exact none k old
      · exact unposted
    | posted posts before pauses box =>
      refine .posted posts (Nat.lt_succ_of_lt before) (pauses.next fun thread steps => ?_)
        (same.trans box)
      exact unopened _ (posts.posts.opens h before pauses steps)
    | opened posts after pauses opens before box =>
      exact .opened posts after pauses opens (Nat.lt_succ_of_lt before) (same.trans box)
  · cases letter with
    | unposted empty none =>
      obtain ⟨_, last, called, rfl, posted⟩ := posts.posted h fresh untouched registers
      rw [empty] at box
      exact .posted posted m.lt_succ_self (.empty run i _) box
    | posted posts' before => exact (once before posts' posts).elim
    | opened posts' after _ _ before => exact (once (after.trans before) posts' posts).elim
  · obtain ⟨k, exit, early, posts, pauses⟩ := opens.posted h fresh
    obtain ⟨_, last, called, rfl, posted⟩ := posts.posted h fresh untouched registers
    cases letter with
    | unposted _ none => exact absurd posts (none k early i _)
    | posted posts' _ _ full =>
      obtain ⟨rfl, rfl, rfl⟩ := posts'.unique posted h
      rw [full] at box
      exact .opened posted early pauses opens m.lt_succ_self box
    | opened posts' after pauses' opens' before =>
      obtain ⟨rfl, rfl, rfl⟩ := posts'.unique posted h
      obtain ⟨_, steps, _⟩ := opens
      obtain ⟨_, steps', _⟩ := opens'
      exact absurd (pauses'.unique steps' after pauses steps early) before.ne

/-- The mailbox of a caller holds the exit of its fiber or nothing, and nothing only while it is
shut. -/
theorem Run.letter (h : Run run) (fresh : (run 0).Fresh) (untouched : Untouched run)
    (registers : RegistersAt run j id n (.answer type mailbox)) (later : n < m) :
    Letter run id type mailbox m := by
  obtain ⟨index, pushed⟩ := registers.new_mailbox
  induction m, later using Nat.le_induction with
  | base =>
    refine .unposted ?_ fun k early i exit posts => ?_
    · rw [pushed, index]
      exact Array.getElem?_push_size
    · have after := (posts.posted h fresh untouched registers).1
      omega
  | succ m later ih =>
    refine ih.next h fresh untouched registers ?_
    have grows := untouched.grows later
    rw [pushed, Array.size_push, ← index] at grows
    exact grows

/-- A mailbox is shut, or it shows the exit with which its caller has been called. -/
theorem Letter.shut_or_shown (letter : Letter run id type mailbox n) :
    (run n).heap.isOpen mailbox = false ∨ (run n).heap.isOpen mailbox = true ∧
      ∃ exit i called, called < n ∧ Called run id (.answer type mailbox) exit i called ∧
        (run n).heap.slot mailbox = some (exit.recover type).erase := by
  unfold Heap.isOpen Heap.slot
  cases letter with
  | unposted box | posted _ _ _ box =>
    rw [box]
    exact .inl rfl
  | opened posts after _ _ before box =>
    rw [box]
    exact .inr ⟨rfl, _, _, _, (posts.before.trans after).trans before, posts.calls, rfl⟩

/-! ### What becomes of a caller -/

variable {α : Type} {keep : Code σ α → Activation σ} {code rest : Code σ α}
  {base : List (Activation σ)} {runner : Runner} {effect : Effect σ A}

/-- The caller of a root fiber that is to be called back. -/
def callingBack (callback : Exit A.Carrier → Code σ Unit) : Observer σ :=
  .call (.ofCode fun exit => callback (exit.recover A))

/-- The next step of a thread is a request in the user code on top of it. -/
structure Requests (run : Nat → World σ) (i n : Nat) (thread : Thread σ)
    (keep : Code σ α → Activation σ) (code : Code σ α) (base : List (Activation σ)) : Prop where
  steps : StepsAt run n i thread
  calm : thread.panicking = none
  control : thread.control = keep code :: base
  holds : (keep code).Holds keep code

/-- The request begins something, and the user code that is left goes on under this. -/
def Leaves (run : Nat → World σ) (i n : Nat) (own : Activation σ) (base : List (Activation σ)) :
    Prop :=
  ∃ thread begun, (run (n + 1)).threads[i]? = some thread ∧ thread.control = begun ++ own :: base

/-- The request begins nothing, and the user code goes on at once. -/
def GoesOn (run : Nat → World σ) (i n : Nat) (thread : Thread σ) (own : Activation σ)
    (base : List (Activation σ)) : Prop :=
  (run (n + 1)).threads[i]? = some { thread with control := own :: base }

namespace Requests

theorem next (requests : Requests run i n thread keep code base) :
    thread.next? = some (keep code) :=
  Thread.next?_eq_some_iff.mpr ⟨requests.calm, base, requests.control⟩

theorem after (requests : Requests run i n thread keep code base) (going : code.isOver = false) :
    (run (n + 1)).threads[i]? =
      some (Machine.perform (run n).heap { thread with control := base } keep code).2 := by
  rw [requests.steps.after, Machine.step_of_next? _ requests.calm requests.control,
    Machine.advance_of_holds requests.holds going]

/-- A request that cannot be met yet is put back. -/
theorem put_back (requests : Requests run i n thread keep code base) :
    ({ thread with control := base } : Thread σ).push (keep code) = thread :=
  congrArg (fun control => { thread with control }) requests.control.symm

theorem registers {caller : Observer σ} {id : FiberId}
    (requests : Requests run i n thread keep code base)
    (registered : code.registered? (run n).heap = some (id, caller)) :
    RegistersAt run i id n caller :=
  ⟨thread, keep code, id, requests.steps, requests.next,
    (requests.holds.registered? _).trans registered, rfl⟩

theorem runAsync {callback : Exit A.Carrier → Code σ Unit} {f : Fiber A → Code σ α}
    (requests : Requests run i n thread keep ((runner.runAsync effect callback).bind f) base) :
    RegistersAt run i (run n).heap.nextFiber n (callingBack callback) ∧
      Leaves run i n (keep (f ⟨(run n).heap.nextFiber⟩)) base := by
  obtain ⟨begun, _, control⟩ := (Machine.grows_newRoot (run n).heap
    (({ thread with control := base } : Thread σ).push (keep (f ⟨(run n).heap.nextFiber⟩)))
    runner.executor effect.node [callingBack callback]).control
  exact ⟨requests.registers rfl, _, begun, requests.after rfl, control⟩

/-- A request of a caller that will block makes a mailbox, whatever it does then. -/
theorem submit {f : MailboxId → Code σ α}
    (requests : Requests run i n thread keep (.submit runner.executor effect.node A f) base) :
    RegistersAt run i (run n).heap.nextFiber n (.answer A (run n).heap.nextMailbox) ∧
      Leaves run i n (keep (f (run n).heap.nextMailbox)) base := by
  obtain ⟨begun, _, control⟩ := (Machine.grows_newRoot (run n).heap.addMailbox
    (({ thread with control := base } : Thread σ).push (keep (f (run n).heap.nextMailbox)))
    runner.executor effect.node [.answer A (run n).heap.nextMailbox]).control
  exact ⟨requests.registers rfl, _, begun, requests.after rfl, control⟩

/-- A caller that blocks goes on with the exit of its fiber, or waits. -/
theorem blocked {f : Exit A.Carrier → Code σ α}
    (requests : Requests run i n thread keep ((Runner.blocked A mailbox).bind f) base)
    (letter : Letter run id A mailbox n) :
    (∃ exit j called, called < n ∧ Called run id (.answer A mailbox) exit j called ∧
        GoesOn run i n thread (keep (f (exit.recover A))) base) ∨
      (run n).heap.isOpen mailbox = false ∧ (run (n + 1)).threads[i]? = some thread := by
  rcases letter.shut_or_shown with shut | ⟨shown, exit, j, called, before, calls, slot⟩
  · refine .inr ⟨shut, (requests.after rfl).trans (congrArg some ?_)⟩
    rw [Runner.perform_blocked_of_shut shut]
    exact requests.put_back
  · refine .inl ⟨exit, j, called, before, calls, (requests.after rfl).trans (congrArg some ?_)⟩
    rw [Runner.perform_blocked shown slot]
    rfl

/-- A caller that blocks for some time goes on with the exit of its fiber, gives up, or waits. -/
theorem patient {f : Option (Exit A.Carrier) → Code σ α} {timeout deadline : Nat}
    (requests : Requests run i n thread keep
      ((Runner.patient A mailbox timeout deadline).bind f) base)
    (letter : Letter run id A mailbox n) :
    (∃ exit j called, called < n ∧ Called run id (.answer A mailbox) exit j called ∧
        GoesOn run i n thread (keep (f (some (exit.recover A)))) base) ∨
      (run n).heap.isOpen mailbox = false ∧
        (deadline ≤ (run n).heap.now ∧
            GoesOn run i n thread (keep ((Runner.givesUp timeout).bind f)) base ∨
          (run n).heap.now < deadline ∧ (run (n + 1)).threads[i]? = some thread) := by
  rcases letter.shut_or_shown with shut | ⟨shown, exit, j, called, before, calls, slot⟩
  · have after := requests.after rfl
    rw [Runner.perform_patient_of_shut shut] at after
    rcases le_or_gt deadline (run n).heap.now with late | early
    · exact .inr ⟨shut, .inl ⟨late, after.trans (congrArg some (if_pos late))⟩⟩
    · refine .inr ⟨shut, .inr ⟨early, after.trans (congrArg some ?_)⟩⟩
      exact (if_neg (Nat.not_le.mpr early)).trans requests.put_back
  · refine .inl ⟨exit, j, called, before, calls, (requests.after rfl).trans (congrArg some ?_)⟩
    rw [Runner.perform_patient shown slot]
    rfl

end Requests

/-! ### The law of entry points -/

/-- A callback that counts successes. -/
def countingSuccess (exit : Exit Ty.int.Carrier) : Code Nat Unit :=
  .modify (fun count => if exit.isSuccess then count + 1 else count) fun _ => .done ()

/-- A program that asks in every way: it is called back, looks at the handle, blocks for an exit,
and blocks for one that does not come. -/
def asking : Code Nat Unit :=
  ((⟨⟨0⟩⟩ : Runner).runAsync (succeedNow 5 : Effect Nat .int) countingSuccess).bind fun handle =>
    handle.poll.bind fun seen =>
      ((⟨⟨0⟩⟩ : Runner).runSync (succeedNow 7 : Effect Nat .int)).bind fun exit =>
        ((⟨⟨0⟩⟩ : Runner).runSyncTimeout (async fun _ => .done () : Effect Nat .int) 0).bind
          fun last => .modify (fun count =>
            if seen.isSome && exit.isSuccess && last.isNone then count + 10 else count)
            fun _ => .done ()

end World

end Fibers
