import Fibers.Proofs.Effect.Confined
import Fibers.Proofs.Machine.Arrival
import Fibers.Proofs.Machine.Meeting

/-!
# Crews

The crew of a root fiber is what is forked in its run, transitively. It is listed with each child
right before its parent, so a fiber that keeps to the handles it knows has handles on nobody but its
elders: those before it in the list. If it waits for an exit, it waits for an elder.

## Main results

`Crewed` is the invariant of a thread that runs a crew of confined fibers, between two steps.
`Crewed.ended`: once nothing is under way and nothing is queued, the whole crew has ended.
`Crewed.calm` and `Crewed.moved` keep the invariant when the heap changes in nothing that matters to
the crew, and when work moves about on the thread.
-/

namespace Fibers

variable {σ : Type}

/-! ### Elders -/

/-- The members of a crew that come before one of them. -/
def elders (crew : List FiberId) (id : FiberId) : Set FiberId :=
  {elder | [elder, id].Sublist crew}

/-- A child joins a crew right before its parent. -/
def recruit (parent child : FiberId) : List FiberId → List FiberId
  | [] => []
  | id :: rest => if id = parent then child :: id :: rest else id :: recruit parent child rest

section Elders

variable {crew crew' : List FiberId} {id elder parent child : FiberId}

theorem mem_of_elder (h : elder ∈ elders crew id) : elder ∈ crew ∧ id ∈ crew :=
  ⟨h.subset List.mem_cons_self, h.subset (List.mem_cons_of_mem _ List.mem_cons_self)⟩

theorem elders_mono (le : crew.Sublist crew') (id : FiberId) :
    elders crew id ⊆ elders crew' id := fun _ h => List.Sublist.trans h le

/-- The elders of a member are those in front of it. -/
theorem mem_elders_iff {before after : List FiberId} (distinct : (before ++ id :: after).Nodup) :
    elder ∈ elders (before ++ id :: after) id ↔ elder ∈ before := by
  constructor
  · intro h
    obtain ⟨fore, aft, same, le, le'⟩ := List.sublist_append_iff.mp h
    have alone : id ∉ before ∧ id ∉ after := by
      rw [List.nodup_append, List.nodup_cons] at distinct
      exact ⟨fun mem => distinct.2.2 id mem id List.mem_cons_self rfl, distinct.2.1.1⟩
    cases fore with
    | nil =>
      rw [List.nil_append] at same
      subst same
      cases le' with
      | cons _ le' => exact absurd (le'.subset (List.mem_cons_of_mem _ List.mem_cons_self)) alone.2
      | cons_cons _ le' => exact absurd (le'.subset List.mem_cons_self) alone.2
    | cons first fore =>
      obtain ⟨rfl, _⟩ := List.cons.inj same
      exact le.subset List.mem_cons_self
  · intro mem
    exact (List.singleton_sublist.mpr mem).append (List.singleton_sublist.mpr List.mem_cons_self)

/-- Elders come one after another. -/
theorem elders_trans (distinct : crew.Nodup) (h : elder ∈ elders crew id) :
    elders crew elder ⊆ elders crew id := by
  obtain ⟨before, after, rfl⟩ := List.append_of_mem (mem_of_elder h).2
  obtain ⟨first, second, rfl⟩ := List.append_of_mem ((mem_elders_iff distinct).mp h)
  intro other old
  rw [mem_elders_iff distinct]
  rw [List.append_assoc, List.cons_append] at distinct old
  exact List.mem_append_left _ ((mem_elders_iff distinct).mp old)

/-- What holds of a member if it holds of its elders holds of the whole crew. -/
theorem forall_of_elders (distinct : crew.Nodup) {holds : FiberId → Prop}
    (step : ∀ id ∈ crew, (∀ elder ∈ elders crew id, holds elder) → holds id) :
    ∀ id ∈ crew, holds id := by
  have front : ∀ before after, crew = before ++ after → ∀ id ∈ before, holds id := by
    intro before
    induction before using List.reverseRecOn with
    | nil => exact fun _ _ _ mem => by cases mem
    | append_singleton before id ih =>
      intro after whole other mem
      rw [List.append_assoc, List.singleton_append] at whole
      rcases List.mem_append.mp mem with mem | mem
      · exact ih (id :: after) whole other mem
      · obtain rfl := List.mem_singleton.mp mem
        refine step other (whole ▸ List.mem_append_right _ List.mem_cons_self) fun elder old => ?_
        rw [whole] at distinct old
        exact ih (other :: after) whole elder ((mem_elders_iff distinct).mp old)
  exact front crew [] (List.append_nil crew).symm

/-- A recruit stands right before its parent. -/
theorem exists_split_recruit (child : FiberId) (mem : parent ∈ crew) :
    ∃ before after, crew = before ++ parent :: after ∧
      recruit parent child crew = before ++ child :: parent :: after := by
  induction crew with
  | nil => cases mem
  | cons id rest ih =>
    by_cases own : id = parent
    · subst own
      exact ⟨[], rest, rfl, if_pos rfl⟩
    · obtain ⟨before, after, same, same'⟩ := ih ((List.mem_cons.mp mem).resolve_left (Ne.symm own))
      refine ⟨id :: before, after, congrArg (id :: ·) same, ?_⟩
      rw [recruit, if_neg own, same']
      rfl

theorem sublist_recruit (parent child : FiberId) (crew : List FiberId) :
    crew.Sublist (recruit parent child crew) := by
  induction crew with
  | nil => exact .slnil
  | cons id rest ih =>
    rw [recruit]
    split
    · exact .cons _ (.refl _)
    · exact ih.cons_cons _

theorem mem_recruit_iff (mem : parent ∈ crew) :
    id ∈ recruit parent child crew ↔ id = child ∨ id ∈ crew := by
  obtain ⟨before, after, rfl, same⟩ := exists_split_recruit child mem
  rw [same]
  simp only [List.mem_append, List.mem_cons]
  tauto

theorem nodup_recruit (mem : parent ∈ crew) (distinct : crew.Nodup) (fresh : child ∉ crew) :
    (recruit parent child crew).Nodup := by
  obtain ⟨before, after, rfl, same⟩ := exists_split_recruit child mem
  rw [same]
  exact List.nodup_middle.mpr (List.nodup_cons.mpr ⟨fresh, distinct⟩)

/-- A recruit is an elder of its parent. -/
theorem recruit_elder (child : FiberId) (mem : parent ∈ crew) :
    child ∈ elders (recruit parent child crew) parent := by
  obtain ⟨before, after, rfl, same⟩ := exists_split_recruit child mem
  rw [same]
  exact List.sublist_append_of_sublist_right
    ((List.singleton_sublist.mpr List.mem_cons_self).cons_cons child)

/-- The elders of its parent are the elders of a recruit. -/
theorem elders_recruit (mem : parent ∈ crew) (distinct : crew.Nodup) (fresh : child ∉ crew) :
    elders crew parent ⊆ elders (recruit parent child crew) child := by
  have distinct' := nodup_recruit mem distinct fresh
  obtain ⟨before, after, rfl, same⟩ := exists_split_recruit child mem
  intro elder old
  rw [same] at distinct' ⊢
  exact (mem_elders_iff distinct').mpr ((mem_elders_iff distinct).mp old)

end Elders

/-! ### What a crew relies on -/

section Crewed

variable (inline : ExecutorId → Prop) (crew : List FiberId)
  (answer : Option (FiberId × Ty × MailboxId)) (heap : Heap σ)

/-- What the heap keeps for a member while it runs. -/
structure Equipped (id : FiberId) : Prop where
  executor : inline (heap.executorOf id)
  scope : ∀ environment ∈ heap.environments id, environment.Within (elders crew id)

/-- Whoever waits for the exit of a member comes after it in the crew, or is the blocked caller. -/
def Observes (id : FiberId) : Observer σ → Prop
  | .resume _ callback => ∃ waiter state,
      heap.suspension? callback = some ⟨waiter, state⟩ ∧ id ∈ elders crew waiter
  | .call _ => False
  | .answer type mailbox => answer = some (id, type, mailbox)

/-- A member of a crew. -/
structure Member (id : FiberId) : Prop where
  knows : heap.Knows id
  equipped : Equipped inline crew heap id
  exit : ∀ exit, heap.poll id = some exit → exit.Within (elders crew id)
  observers : ∀ observer ∈ heap.observers id, Observes crew answer heap id observer

/-- An exit that is told to an observer holds no handles but on elders of the one that waits. The
blocked caller is told the exit that it waits for. -/
def Told (exit : Exit Erased) : Observer σ → Prop
  | .resume _ callback => ∃ waiter state, heap.suspension? callback = some ⟨waiter, state⟩ ∧
      waiter ∈ crew ∧ exit.Within (elders crew waiter)
  | .call _ => False
  | .answer type mailbox => ∃ id ∈ crew, answer = some (id, type, mailbox) ∧
      heap.poll id = some exit

/-- A confined focus outside of registrations. -/
inductive Focus.Confined (known : Set FiberId) : Focus σ → Prop where
  | node {current : Node σ} (h : current.Confined inline known) :
      Focus.Confined known (.node current)
  | value {value : Erased} (h : value.Within known) : Focus.Confined known (.value value)
  | cause (cause : Cause) : Focus.Confined known (.cause cause)
  | thunk {code : Code σ Erased} (h : code.Confined Erased.Within none known) :
      Focus.Confined known (.thunk code)
  | raising {code : Code σ Cause} (h : code.Confined (fun _ _ => True) none known) :
      Focus.Confined known (.raising code)
  | building {code : Code σ (Node σ)} (h : code.Confined (Node.Confined inline) none known) :
      Focus.Confined known (.building code)

/-- How far the registration of a member is: it owes its callback a value, or is about to ask for
the exit of an elder, or has done so, or has the value. -/
inductive Registering (id : FiberId) (callback : CallbackId) : Code σ Unit → Prop where
  | owing {code : Code σ Unit} (fresh : heap.suspension? callback = some ⟨id, .registering⟩)
      (h : code.Confined (fun _ _ => True) (some callback) (elders crew id)) :
      Registering id callback code
  | asking {target : FiberId} (type : Ty)
      (fresh : heap.suspension? callback = some ⟨id, .registering⟩)
      (mem : target ∈ elders crew id) :
      Registering id callback (.observe target type callback .done)
  | asked (fresh : heap.suspension? callback = some ⟨id, .registering⟩) :
      Registering id callback (.done ())
  | supplied {code : Code σ Unit} {value : Erased}
      (supplied : heap.suspension? callback = some ⟨id, .completed value⟩)
      (h : code.Confined (fun _ _ => True) none (elders crew id)) :
      Registering id callback code

/-- What is under way above the drain of a crew. -/
inductive Segment : List (Activation σ) → Prop where
  | idle : Segment []
  | loop {id : FiberId} {focus : Focus σ} {stack : List (Frame σ)} (mem : id ∈ crew)
      (confined : focus.Confined inline (elders crew id))
      (frames : ∀ frame ∈ stack, frame.Confined inline (elders crew id)) :
      Segment [.loop id focus stack]
  | registering {id : FiberId} {callback : CallbackId} {code : Code σ Unit}
      {stack : List (Frame σ)} (mem : id ∈ crew) (stage : Registering crew heap id callback code)
      (frames : ∀ frame ∈ stack, frame.Confined inline (elders crew id)) :
      Segment [.loop id (.registering callback code) stack]
  | notifying {exit : Exit Erased} {observers : List (Observer σ)} {under : List (Activation σ)}
      (told : ∀ observer ∈ observers, Told crew answer heap exit observer) (below : Segment under)
      (asked : under = [] ∨ ∃ id callback stack,
        under = [.loop id (.registering callback (.done ())) stack]) :
      Segment (.notifying exit observers :: under)
  | posting {mailbox : MailboxId} {exit last : Exit Erased} {observers : List (Observer σ)}
      {under : List (Activation σ)} {type : Ty} {id : FiberId} (mem : id ∈ crew)
      (own : answer = some (id, type, mailbox)) (ended : heap.poll id = some exit)
      (below : Segment (.notifying last observers :: under)) :
      Segment (.posting mailbox (exit.recover type).erase :: .notifying last observers :: under)
  | opening {mailbox : MailboxId} {last : Exit Erased} {observers : List (Observer σ)}
      {under : List (Activation σ)} (below : Segment (.notifying last observers :: under)) :
      Segment (.opening mailbox :: .notifying last observers :: under)

/-- A batch of a member. -/
structure Queued (batch : Batch σ) : Prop where
  mem : batch.fiber ∈ crew
  current : batch.current.Confined inline (elders crew batch.fiber)
  frames : ∀ frame ∈ batch.stack, frame.Confined inline (elders crew batch.fiber)

/-- A callback is about to be called with an exit. -/
def Called (segment : List (Activation σ)) (callback : CallbackId) : Prop :=
  ∃ exit observers type, .notifying exit observers ∈ segment ∧ .resume type callback ∈ observers

/-- A callback will be called: it waits for an elder, or is about to be called. -/
def Pledged (segment : List (Activation σ)) (id : FiberId) (callback : CallbackId) : Prop :=
  (∃ elder ∈ elders crew id, ∃ type, .resume type callback ∈ heap.observers elder) ∨
    Called segment callback

/-- What a suspension of a member holds. Who waits has been promised a value. -/
inductive Standing (segment : List (Activation σ)) (id : FiberId) (callback : CallbackId) :
    Rendezvous σ → Prop where
  | registering (pledged : ∀ stack, .loop id (.registering callback (.done ())) stack ∈ segment →
      Pledged crew heap segment id callback) : Standing segment id callback .registering
  | completed {value : Erased} (within : ∀ code stack,
      .loop id (.registering callback code) stack ∈ segment → value.Within (elders crew id)) :
      Standing segment id callback (.completed value)
  | parked {stack : List (Frame σ)}
      (frames : ∀ frame ∈ stack, frame.Confined inline (elders crew id))
      (pledged : Pledged crew heap segment id callback) :
      Standing segment id callback (.parked stack)
  | resumed : Standing segment id callback .resumed
  | abandoned : Standing segment id callback .abandoned

/-- Where a member is that has not ended. -/
inductive Placed (queue : List (Batch σ)) (segment : List (Activation σ)) (id : FiberId) :
    Prop where
  | queued {batch : Batch σ} (mem : batch ∈ queue) (own : batch.fiber = id)
  | looping {focus : Focus σ} {stack : List (Frame σ)} (mem : .loop id focus stack ∈ segment)
  | parked {callback : CallbackId} {stack : List (Frame σ)}
      (there : heap.suspension? callback = some ⟨id, .parked stack⟩)

/-- The exit of a fiber will be in a mailbox: the caller waits for it, or it is on its way, or it is
there. -/
inductive Due (segment : List (Activation σ)) (id : FiberId) (type : Ty) (mailbox : MailboxId) :
    Prop where
  | awaited (waits : .answer type mailbox ∈ heap.observers id)
  | told {exit : Exit Erased} {observers : List (Observer σ)}
      (mem : .notifying exit observers ∈ segment) (waits : .answer type mailbox ∈ observers)
  | posted {exit : Exit Erased} (mem : .posting mailbox exit ∈ segment)
  | filled {exit : Exit Erased} (mem : .opening mailbox ∈ segment)
      (ended : heap.poll id = some exit)
      (slot : heap.slot mailbox = some (exit.recover type).erase) : Due segment id type mailbox
  | given {exit : Exit Erased} (shown : heap.isOpen mailbox = true)
      (ended : heap.poll id = some exit)
      (slot : heap.slot mailbox = some (exit.recover type).erase) : Due segment id type mailbox

/-- A mailbox that one count opens. -/
def Fits (mailbox : MailboxId) : Prop :=
  ∃ box, heap.mailboxes[mailbox.index]? = some box ∧ box.latch.remaining ≤ 1

/-- A thread runs a crew: batches of it are queued, and a segment of the control is its work. -/
structure Crewed (queue : List (Batch σ)) (segment : List (Activation σ)) : Prop where
  distinct : crew.Nodup
  executors : ∀ executor, inline executor → heap.isInline executor = true
  members : ∀ id ∈ crew, Member inline crew answer heap id
  standing : ∀ callback id state, heap.suspension? callback = some ⟨id, state⟩ → id ∈ crew →
    Standing inline crew heap segment id callback state
  queued : ∀ batch ∈ queue, Queued inline crew batch
  work : Segment inline crew answer heap segment
  placed : ∀ id ∈ crew, heap.poll id = none → Placed heap queue segment id
  answered : ∀ id type mailbox, answer = some (id, type, mailbox) →
    id ∈ crew ∧ Fits heap mailbox ∧ Due heap segment id type mailbox

end Crewed

variable {inline : ExecutorId → Prop} {crew crew' : List FiberId}
  {answer : Option (FiberId × Ty × MailboxId)} {heap heap' : Heap σ}
  {queue queue' : List (Batch σ)} {segment segment' : List (Activation σ)} {id : FiberId}
  {focus focus' : Focus σ} {stack stack' : List (Frame σ)} {callback : CallbackId}
  {state : Rendezvous σ}

theorem Heap.observers_eq_nil {exit : Exit Erased} (ended : heap.poll id = some exit) :
    heap.observers id = [] := by
  rw [← heap.exit?_progress] at ended
  rw [observers]
  cases progress : heap.progress id with
  | running => rw [progress] at ended; cases ended
  | done => rfl

/-- Once a crew has nothing to do, it has ended: the first member that had not would wait for an
elder. -/
theorem Crewed.ended (h : Crewed inline crew answer heap [] []) :
    ∀ id ∈ crew, ∃ exit, heap.poll id = some exit := by
  refine forall_of_elders h.distinct fun id mem elder => ?_
  refine Option.ne_none_iff_exists'.mp fun running => ?_
  cases h.placed id mem running with
  | queued mem => cases mem
  | looping mem => cases mem
  | parked there =>
    cases h.standing _ _ _ there mem with
    | parked _ pledged =>
      rcases pledged with ⟨other, old, type, waits⟩ | ⟨_, _, _, mem, _⟩
      · obtain ⟨exit, ended⟩ := elder other old
        rw [heap.observers_eq_nil ended] at waits
        cases waits
      · cases mem

/-! ### Changes that matter to nobody -/

/-- A change of the heap that matters to no member of a crew. -/
structure Calm (inline : ExecutorId → Prop) (crew : List FiberId)
    (answer : Option (FiberId × Ty × MailboxId)) (heap heap' : Heap σ) : Prop where
  knows : ∀ id ∈ crew, heap'.Knows id
  progress : ∀ id ∈ crew, heap'.progress id = heap.progress id
  owners : ∀ callback suspension, heap.suspension? callback = some suspension →
    ∃ state, heap'.suspension? callback = some ⟨suspension.fiber, state⟩
  own : ∀ callback id state, id ∈ crew → (heap'.suspension? callback = some ⟨id, state⟩ ↔
    heap.suspension? callback = some ⟨id, state⟩)
  executors : ∀ executor, inline executor → heap'.isInline executor = true
  equipped : ∀ id ∈ crew, Equipped inline crew heap' id
  mail : ∀ id type mailbox, answer = some (id, type, mailbox) →
    heap'.mailboxes[mailbox.index]? = heap.mailboxes[mailbox.index]?

/-- An observer stays, if suspensions keep their owners and members their elders. -/
theorem Observes.mono {observer : Observer σ} (h : Observes crew answer heap id observer)
    (owners : ∀ callback suspension, heap.suspension? callback = some suspension →
      ∃ state, heap'.suspension? callback = some ⟨suspension.fiber, state⟩)
    (grows : ∀ waiter, elders crew waiter ⊆ elders crew' waiter) :
    Observes crew' answer heap' id observer := by
  cases observer with
  | resume type callback =>
    obtain ⟨waiter, state, present, elder⟩ := h
    obtain ⟨state', present'⟩ := owners callback _ present
    exact ⟨waiter, state', present', grows waiter elder⟩
  | call => exact h
  | answer => exact h

theorem Pledged.mono (h : Pledged crew heap segment id callback)
    (observers : ∀ elder ∈ elders crew id, ∀ type, .resume type callback ∈ heap.observers elder →
      .resume type callback ∈ heap'.observers elder ∨ Called segment' callback)
    (called : Called segment callback → Called segment' callback) :
    Pledged crew heap' segment' id callback := by
  rcases h with ⟨elder, old, type, waits⟩ | due
  · exact (observers elder old type waits).imp_left fun waits => ⟨elder, old, type, waits⟩
  · exact .inr (called due)

/-- What a suspension holds stays as it is, if who has asked is still promised a value. -/
theorem Standing.mono (h : Standing inline crew heap segment id callback state)
    (pledged : Pledged crew heap segment id callback → Pledged crew heap' segment' id callback)
    (asked : ∀ code stack, .loop id (.registering callback code) stack ∈ segment' →
      .loop id (.registering callback code) stack ∈ segment) :
    Standing inline crew heap' segment' id callback state := by
  cases h with
  | registering pledge =>
    exact .registering fun stack mem => pledged (pledge stack (asked _ stack mem))
  | completed within => exact .completed fun code stack mem => within code stack (asked _ _ mem)
  | parked frames pledge => exact .parked frames (pledged pledge)
  | resumed => exact .resumed
  | abandoned => exact .abandoned

/-- The work of a crew stays as it is, if suspensions keep their owners and registrations their
stages. -/
theorem Segment.mono (h : Segment inline crew answer heap segment)
    (owners : ∀ callback suspension, heap.suspension? callback = some suspension →
      ∃ state, heap'.suspension? callback = some ⟨suspension.fiber, state⟩)
    (stages : ∀ id callback code stack, .loop id (.registering callback code) stack ∈ segment →
      id ∈ crew → Registering crew heap id callback code →
        Registering crew heap' id callback code)
    (polls : ∀ id ∈ crew, ∀ exit, heap.poll id = some exit → heap'.poll id = some exit) :
    Segment inline crew answer heap' segment := by
  have told {exit : Exit Erased} {observer : Observer σ}
      (h : Told crew answer heap exit observer) : Told crew answer heap' exit observer := by
    cases observer with
    | resume type callback =>
      obtain ⟨waiter, state, present, mem, within⟩ := h
      obtain ⟨state', present'⟩ := owners callback _ present
      exact ⟨waiter, state', present', mem, within⟩
    | call => exact h
    | answer type mailbox =>
      obtain ⟨id, mem, own, ended⟩ := h
      exact ⟨id, mem, own, polls id mem exit ended⟩
  induction h with
  | idle => exact .idle
  | loop mem confined frames => exact .loop mem confined frames
  | registering mem stage frames =>
    exact .registering mem (stages _ _ _ _ List.mem_cons_self mem stage) frames
  | notifying told' below asked ih =>
    exact .notifying (fun observer mem => told (told' observer mem))
      (ih fun id callback code stack mem =>
        stages id callback code stack (List.mem_cons_of_mem _ mem)) asked
  | posting mem own ended below ih =>
    exact .posting mem own (polls _ mem _ ended) (ih fun id callback code stack mem =>
      stages id callback code stack (List.mem_cons_of_mem _ mem))
  | opening below ih =>
    exact .opening (ih fun id callback code stack mem =>
      stages id callback code stack (List.mem_cons_of_mem _ mem))

/-- A loop on top of the work of a crew is one of a member. -/
theorem Segment.loops (h : Segment inline crew answer heap segment) (id : FiberId)
    (focus : Focus σ) (stack : List (Frame σ)) (top : segment.head? = some (.loop id focus stack)) :
    id ∈ crew := by
  cases h with
  | loop mem | registering mem =>
    cases top
    exact mem
  | idle | notifying | posting | opening => cases top

/-- The caller still gets its answer, if whoever was to bring it still is. -/
theorem Due.mono {type : Ty} {mailbox : MailboxId} (h : Due heap segment id type mailbox)
    (observers : .answer type mailbox ∈ heap.observers id →
      Due heap' segment' id type mailbox)
    (told : ∀ exit observers, .notifying exit observers ∈ segment →
      .answer type mailbox ∈ observers → Due heap' segment' id type mailbox)
    (others : ∀ exit, .posting mailbox exit ∈ segment → .posting mailbox exit ∈ segment')
    (opens : .opening mailbox ∈ segment → .opening mailbox ∈ segment')
    (polls : ∀ exit, heap.poll id = some exit → heap'.poll id = some exit)
    (mail : heap'.mailboxes[mailbox.index]? = heap.mailboxes[mailbox.index]?) :
    Due heap' segment' id type mailbox := by
  have slot : heap'.slot mailbox = heap.slot mailbox := by rw [Heap.slot, mail]; rfl
  have shown : heap'.isOpen mailbox = heap.isOpen mailbox := by rw [Heap.isOpen, mail]; rfl
  cases h with
  | awaited waits => exact observers waits
  | told mem waits => exact told _ _ mem waits
  | posted mem => exact .posted (others _ mem)
  | filled mem ended filled => exact .filled (opens mem) (polls _ ended) (slot.trans filled)
  | given open' ended filled => exact .given (shown.trans open') (polls _ ended) (slot.trans filled)

theorem Fits.congr {mailbox : MailboxId} (h : Fits heap mailbox)
    (mail : heap'.mailboxes[mailbox.index]? = heap.mailboxes[mailbox.index]?) :
    Fits heap' mailbox := by
  rwa [Fits, mail]

theorem Calm.silent (h : Calm inline crew answer heap heap') : Calm inline crew none heap heap' :=
  ⟨h.knows, h.progress, h.owners, h.own, h.executors, h.equipped, nofun⟩

theorem Calm.observers (h : Calm inline crew answer heap heap') (mem : id ∈ crew) :
    heap'.observers id = heap.observers id := by
  rw [Heap.observers, h.progress id mem]
  rfl

theorem Calm.poll (h : Calm inline crew answer heap heap') (mem : id ∈ crew) :
    heap'.poll id = heap.poll id := by
  rw [← Heap.exit?_progress, h.progress id mem, Heap.exit?_progress]

theorem Member.calm (member : Member inline crew answer heap id) (mem : id ∈ crew)
    (h : Calm inline crew none heap heap') : Member inline crew answer heap' id where
  knows := h.knows id mem
  equipped := h.equipped id mem
  exit exit ended := member.exit exit (h.poll mem ▸ ended)
  observers observer waits :=
    (member.observers observer (h.observers mem ▸ waits)).mono h.owners fun _ => subset_rfl

theorem Registering.calm {code : Code σ Unit} (stage : Registering crew heap id callback code)
    (mem : id ∈ crew) (h : Calm inline crew none heap heap') :
    Registering crew heap' id callback code := by
  cases stage with
  | owing fresh code => exact .owing ((h.own _ _ _ mem).mpr fresh) code
  | asking type fresh elder => exact .asking type ((h.own _ _ _ mem).mpr fresh) elder
  | asked fresh => exact .asked ((h.own _ _ _ mem).mpr fresh)
  | supplied supplied code => exact .supplied ((h.own _ _ _ mem).mpr supplied) code

/-- The crew does not notice a change that matters to none of its members, if the caller still gets
its answer. -/
theorem Crewed.changed (h : Crewed inline crew answer heap queue segment)
    (calm : Calm inline crew none heap heap')
    (answered : ∀ id type mailbox, answer = some (id, type, mailbox) → id ∈ crew →
      Fits heap mailbox → Due heap segment id type mailbox →
        Fits heap' mailbox ∧ Due heap' segment id type mailbox) :
    Crewed inline crew answer heap' queue segment where
  distinct := h.distinct
  executors := calm.executors
  members id mem := (h.members id mem).calm mem calm
  standing callback id state present mem := by
    have standing := h.standing callback id state ((calm.own _ _ _ mem).mp present) mem
    refine standing.mono (fun pledged => pledged.mono (fun elder old type waits => .inl ?_)
      fun called => called) fun _ _ mem => mem
    rwa [calm.observers (mem_of_elder old).1]
  queued := h.queued
  work := h.work.mono calm.owners (fun _ _ _ _ _ mem stage => stage.calm mem calm)
    fun id mem exit ended => (calm.poll mem).trans ended
  placed id mem running := by
    cases h.placed id mem (calm.poll mem ▸ running) with
    | queued mem own => exact .queued mem own
    | looping mem => exact .looping mem
    | parked there => exact .parked ((calm.own _ _ _ mem).mpr there)
  answered id type mailbox own := by
    obtain ⟨mem, fits, due⟩ := h.answered id type mailbox own
    exact ⟨mem, answered id type mailbox own mem fits due⟩

theorem Crewed.calm (h : Crewed inline crew answer heap queue segment)
    (calm : Calm inline crew answer heap heap') :
    Crewed inline crew answer heap' queue segment := by
  refine h.changed calm.silent fun id type mailbox own mem fits due => ?_
  have mail := calm.mail id type mailbox own
  refine ⟨fits.congr mail, due.mono (fun waits => .awaited ?_) (fun _ _ => .told)
    (fun _ mem => mem) (fun mem => mem) (fun exit ended => (calm.poll mem).trans ended) mail⟩
  rwa [calm.observers mem]

/-- Work of the crew moves about on its thread. -/
theorem Crewed.moved (h : Crewed inline crew answer heap queue segment)
    (queued : ∀ batch ∈ queue', Queued inline crew batch)
    (work : Segment inline crew answer heap segment')
    (called : ∀ callback, Called segment callback → Called segment' callback)
    (asked : ∀ id callback code stack, .loop id (.registering callback code) stack ∈ segment' →
      .loop id (.registering callback code) stack ∈ segment)
    (placed : ∀ id, (∃ batch ∈ queue, batch.fiber = id) ∨
        (∃ focus stack, .loop id focus stack ∈ segment) → Placed heap queue' segment' id)
    (due : ∀ id type mailbox, answer = some (id, type, mailbox) →
      Due heap segment id type mailbox → Due heap segment' id type mailbox) :
    Crewed inline crew answer heap queue' segment' where
  distinct := h.distinct
  executors := h.executors
  members := h.members
  standing callback id state present mem :=
    (h.standing callback id state present mem).mono (fun pledged => pledged.mono
      (fun _ _ _ waits => .inl waits) (called callback)) (asked id callback)
  queued := queued
  work := work
  placed id mem running := by
    cases h.placed id mem running with
    | queued mem own => exact placed id (.inl ⟨_, mem, own⟩)
    | looping mem => exact placed id (.inr ⟨_, _, mem⟩)
    | parked there => exact .parked there
  answered id type mailbox own := by
    obtain ⟨mem, fits, promised⟩ := h.answered id type mailbox own
    exact ⟨mem, fits, due id type mailbox own promised⟩

end Fibers
