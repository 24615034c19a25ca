import Fibers.Text.Quoted

/-!
# Parts of a text

A text is cut at byte offsets, which count the bytes that its characters take. An offset inside a
character cuts nothing.
-/

namespace Fibers.Text

/-- The number of bytes that characters take. -/
def byteSize (chars : List Char) : Nat := chars.foldl (fun size c => size + c.utf8Size) 0

/-- The characters with the offsets at which they begin, from a first offset on. -/
def offsets (first : Nat) : List Char → List (Nat × Char)
  | [] => []
  | c :: rest => (first, c) :: offsets (first + c.utf8Size) rest

theorem map_snd_offsets (first : Nat) (chars : List Char) :
    (offsets first chars).map Prod.snd = chars := by
  induction chars generalizing first with
  | nil => rfl
  | cons c rest ih => rw [offsets, List.map_cons, ih]

/-- An offset inside a character. -/
structure InnerOffset where
  offset : Nat
  /-- Whether the part would begin there; otherwise it would end there. -/
  begins : Bool
  character : Char
  /-- The offset at which the character begins. -/
  first : Nat
  deriving DecidableEq, Repr

/-- The text reported for an offset inside a character. -/
def InnerOffset.message (inner : InnerOffset) : String :=
  (if inner.begins then "start" else "end") ++ " byte index " ++ toString inner.offset ++
    " is not a char boundary; it is inside '" ++ quoteChar inner.character ++ "' (bytes " ++
    toString inner.first ++ ".." ++ toString (inner.first + inner.character.utf8Size) ++
    " of string)"

/-- The character that an offset lies in, if it does not lie between two. -/
def inner? (text : String) (offset : Nat) (begins : Bool) : Option InnerOffset :=
  ((offsets 0 text.toList).find? fun (first, c) =>
    first < offset && offset < first + c.utf8Size).map
      fun (first, c) => ⟨offset, begins, c, first⟩

/-- The part of a text between two offsets. -/
def cut (text : String) (start stop : Nat) : Except InnerOffset String :=
  match inner? text start true, inner? text stop false with
  | some inner, _ => .error inner
  | none, some inner => .error inner
  | none, none =>
    .ok (String.ofList (((offsets 0 text.toList).filter fun (first, _) =>
      start ≤ first && first < stop).map Prod.snd))

end Fibers.Text
