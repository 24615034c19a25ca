import Fibers.Config.Environment
import Fibers.Pool

/-!
# What the environment can ask for

Two sets of rules decide what a configuration may hold: those that `Config.fromEnvironment` applies
to each variable, and those of `Config.validate`. Both are compared with one rule for each setting,
`Setter.allowed`: a field of `fromEnvironment` is what its variable reads as if that is allowed and
the default otherwise (`field_fromEnvironment`), and a configuration is valid exactly if every field
is allowed (`validate_iff`).

## Main results

- `fromEnvironment_starts_iff`: whatever the five variables hold, the configuration is valid, each
  field is decided by its own variable, and a pool starts with it or cannot spawn its threads
  exactly if a table of that many workers can be made and the name has no null character.
- `fromEnvironment_overflows`: a count of workers that is read and accepted and for which no table
  can be made.
-/

namespace Fibers

/-! ## Null characters -/

namespace Text

theorem zero_mem_utf8EncodeChar_iff (c : Char) : 0 ∈ String.utf8EncodeChar c ↔ c = '\x00' := by
  have null : c = '\x00' ↔ c.val.toNat = 0 := by
    rw [Char.ext_iff, ← UInt32.toNat_inj]
    rfl
  have byte (n : Nat) : (0 : UInt8) = UInt8.ofNat n ↔ n % 256 = 0 := by
    rw [← UInt8.toNat_inj, UInt8.toNat_ofNat', eq_comm]
    rfl
  rw [null]
  simp only [String.utf8EncodeChar]
  generalize c.val.toNat = v
  -- One, two, three or four bytes; all but the single one have a mark in their highest bits.
  split
  · rw [List.mem_singleton, byte]
    omega
  · split
    · simp only [List.mem_cons, List.not_mem_nil, or_false, byte]
      omega
    · split
      · simp only [List.mem_cons, List.not_mem_nil, or_false, byte]
        omega
      · simp only [List.mem_cons, List.not_mem_nil, or_false, byte]
        omega

theorem toList_loop (bytes : ByteArray) (i : Nat) (read : List UInt8) :
    ByteArray.toList.loop bytes i read = read.reverse ++ bytes.data.toList.drop i := by
  fun_induction ByteArray.toList.loop bytes i read with
  | case1 i read inside ih =>
    have here : i < bytes.data.toList.length := by simpa using inside
    rw [ih, List.reverse_cons, List.append_assoc, List.singleton_append,
      List.drop_eq_getElem_cons here]
    congr 2
    simp [ByteArray.get!, inside]
  | case2 i read outside =>
    rw [List.drop_eq_nil_of_le (by simpa using outside), List.append_nil]

/-- Only the null character is written with a null byte. -/
theorem zero_mem_bytes_iff (name : String) :
    0 ∈ name.toUTF8.toList ↔ '\x00' ∈ name.toList := by
  have bytes : name.toUTF8.toList = name.toList.flatMap String.utf8EncodeChar := by
    obtain ⟨chars, rfl⟩ : ∃ chars, name = .ofList chars := ⟨name.toList, by simp⟩
    rw [ByteArray.toList, toList_loop, List.reverse_nil, List.nil_append, List.drop_zero,
      String.toUTF8, String.toByteArray_ofList, List.utf8Encode, List.data_toByteArray]
    simp
  rw [bytes]
  simp [List.mem_flatMap, zero_mem_utf8EncodeChar_iff]

end Text

/-! ## Starting a pool with a valid configuration -/

namespace Pool

theorem interiorNull?_eq_none_iff (name : String) :
    interiorNull? name = none ↔ '\x00' ∉ name.toList := by
  rw [← Text.zero_mem_bytes_iff, interiorNull?]
  split
  · simpa using List.idxOf_lt_length_iff.mp ‹_›
  · simpa using fun null => ‹¬ _› (List.idxOf_lt_length_iff.mpr null)

theorem null_mem_threadName_iff (name : String) :
    '\x00' ∈ (threadName name 0).toList ↔ '\x00' ∈ name.toList := by
  simp [threadName]

/-- With settings that are valid there is a pool, or a thread cannot be spawned, unless the table of
workers cannot be made or the threads cannot bear their names. -/
theorem start_of_valid {config : PoolConfig} (valid : config.validate = .ok ()) :
    ((∃ pool, start config = .ok (.ok pool)) ∨
        ∃ reason, start config = .ok (.error (.spawn reason))) ↔
      config.workers < unobtainableWorkers ∧ '\x00' ∉ config.threadName.toList := by
  rw [start, valid, ← null_mem_threadName_iff, ← interiorNull?_eq_none_iff, ← Nat.not_le]
  by_cases many : unobtainableWorkers ≤ config.workers
  · simp [many]
  · cases null : interiorNull? (threadName config.threadName 0) with
    | some payload => simp [many]
    | none => by_cases large : unobtainableStackSize ≤ config.stackSize <;> simp [many, large]

end Pool

namespace Config

/-- The variables that are looked at. -/
inductive Variable where
  | workers
  | threadName
  | stackSize
  | level
  | timestamps
  deriving DecidableEq, Repr

namespace Variable

/-- The name in the environment. -/
def name : Variable → String
  | .workers => "STRAND_NUM_WORKERS"
  | .threadName => "STRAND_THREAD_NAME"
  | .stackSize => "STRAND_THREAD_STACK_SIZE"
  | .level => "STRAND_LOG_LEVEL"
  | .timestamps => "STRAND_LOG_TIMESTAMPS"

/-- The setting that a text is read as, whether or not it is allowed. -/
def read? : Variable → String → Option Setter
  | .workers, text => (Text.word? text).map .workers
  | .threadName, text => some (.threadName text)
  | .stackSize, text => (Text.word? text).map .stackSize
  | .level, text => (LogLevel.parse? text).map .level
  | .timestamps, text => (switch? text).map .timestamps

/-- The setting that an environment asks for, whether or not it is allowed. -/
def asked? (vars : Variables) (v : Variable) : Option Setter := (vars v.name).bind v.read?

theorem asked?_eq_of_agree {vars vars' : Variables} {v : Variable}
    (agree : vars' v.name = vars v.name) : v.asked? vars' = v.asked? vars := by
  rw [asked?, asked?, agree]

end Variable

/-- The field that a variable is about, as the setting that makes it so. -/
def field (config : Config) : Variable → Setter
  | .workers => .workers config.pool.workers
  | .threadName => .threadName config.pool.threadName
  | .stackSize => .stackSize config.pool.stackSize
  | .level => .level config.log.level
  | .timestamps => .timestamps config.log.timestamps

/-- The variable that asks for a setting. -/
def Setter.variable : Setter → Variable
  | .workers _ => .workers
  | .threadName _ => .threadName
  | .stackSize _ => .stackSize
  | .level _ => .level
  | .timestamps _ => .timestamps

/-- Whether a setting is one that a valid configuration can have. -/
def Setter.allowed : Setter → Bool
  | .workers count => 0 < count
  | .threadName name => !Text.allBlank name
  | .stackSize bytes => minStackSize ≤ bytes
  | .level _ | .timestamps _ => true

variable {workers : Nat} {vars : Variables}

/-! ## Validation, field by field -/

theorem validate_iff (config : Config) :
    config.validate = .ok () ↔ ∀ v, (config.field v).allowed = true := by
  rw [validate, PoolConfig.validate_eq_ok_iff]
  constructor
  · rintro ⟨some_worker, named, large⟩ v
    cases v <;> simp_all [field, Setter.allowed, Nat.pos_iff_ne_zero]
  · intro allowed
    have some_worker := allowed .workers
    have named := allowed .threadName
    have large := allowed .stackSize
    simp only [field, Setter.allowed, decide_eq_true_eq, Bool.not_eq_true'] at *
    exact ⟨Nat.pos_iff_ne_zero.mp some_worker, named, large⟩

theorem allowed_field_default (present : 1 ≤ workers) (v : Variable) :
    ((default workers).field v).allowed = true := by
  cases v with
  | workers => exact decide_eq_true present
  | threadName =>
    have named : Text.allBlank "strand-worker" = false := by decide +kernel
    exact congrArg not named
  | stackSize | level | timestamps => rfl

theorem field_set (config : Config) (setter : Setter) (v : Variable) :
    (config.set setter).field v = if setter.variable = v then setter else config.field v := by
  cases setter <;> cases v <;> rfl

/-- One setting on top of the defaults is validated by the rule for that setting alone. -/
theorem validate_set_default_iff (present : 1 ≤ workers) (setter : Setter) :
    ((default workers).set setter).validate = .ok () ↔ setter.allowed = true := by
  rw [validate_iff]
  constructor
  · intro allowed
    simpa [field_set] using allowed setter.variable
  · intro allowed v
    rw [field_set]
    split
    · exact allowed
    · exact allowed_field_default present v

/-! ## The environment, field by field -/

/-- A field is what its variable asks for, if that is allowed. -/
theorem field_fromEnvironment (workers : Nat) (vars : Variables) (v : Variable) :
    (fromEnvironment workers vars).field v =
      ((v.asked? vars).filter Setter.allowed).getD ((default workers).field v) := by
  cases v with
  | workers =>
    simp only [fromEnvironment, field, Variable.asked?, Variable.name]
    cases vars "STRAND_NUM_WORKERS" with
    | none => rfl
    | some text =>
      simp only [Option.bind_some, workers?, Variable.read?]
      cases Text.word? text with
      | none => rfl
      | some count =>
        by_cases positive : 0 < count <;> simp [Option.filter, Setter.allowed, positive]
  | threadName =>
    simp only [fromEnvironment, field, Variable.asked?, Variable.name]
    cases vars "STRAND_THREAD_NAME" with
    | none => rfl
    | some text =>
      by_cases blank : Text.allBlank text = true <;>
        simp [threadName?, Variable.read?, Option.filter, Setter.allowed, blank]
  | stackSize =>
    simp only [fromEnvironment, field, Variable.asked?, Variable.name]
    cases vars "STRAND_THREAD_STACK_SIZE" with
    | none => rfl
    | some text =>
      simp only [Option.bind_some, stackSize?, Variable.read?]
      cases Text.word? text with
      | none => rfl
      | some bytes =>
        by_cases large : minStackSize ≤ bytes <;> simp [Option.filter, Setter.allowed, large]
  | level =>
    simp only [fromEnvironment, field, Variable.asked?, Variable.name]
    cases vars "STRAND_LOG_LEVEL" with
    | none => rfl
    | some text =>
      simp only [Option.bind_some, Variable.read?]
      cases LogLevel.parse? text <;> rfl
  | timestamps =>
    simp only [fromEnvironment, field, Variable.asked?, Variable.name]
    cases vars "STRAND_LOG_TIMESTAMPS" with
    | none => rfl
    | some text =>
      simp only [Option.bind_some, Variable.read?]
      cases switch? text <;> rfl

theorem field_of_allowed {v : Variable} {setter : Setter} (asked : v.asked? vars = some setter)
    (allowed : setter.allowed = true) : (fromEnvironment workers vars).field v = setter := by
  rw [field_fromEnvironment, asked, Option.filter_some_pos allowed, Option.getD_some]

theorem field_of_forall_not_allowed {v : Variable}
    (refused : ∀ setter, v.asked? vars = some setter → setter.allowed = false) :
    (fromEnvironment workers vars).field v = (default workers).field v := by
  have none_left : (v.asked? vars).filter Setter.allowed = none := by
    rw [Option.filter_eq_none_iff]
    intro setter asked
    simp [refused setter asked]
  rw [field_fromEnvironment, none_left, Option.getD_none]

theorem allowed_field_fromEnvironment (present : 1 ≤ workers) (vars : Variables) (v : Variable) :
    ((fromEnvironment workers vars).field v).allowed = true := by
  rw [field_fromEnvironment]
  cases kept : (v.asked? vars).filter Setter.allowed with
  | none => exact allowed_field_default present v
  | some setter => exact (Option.filter_eq_some_iff.mp kept).2

/-- What the environment asks for is valid. -/
theorem validate_fromEnvironment (present : 1 ≤ workers) (vars : Variables) :
    (fromEnvironment workers vars).validate = .ok () :=
  (validate_iff _).mpr (allowed_field_fromEnvironment present vars)

theorem field_eq_iff (present : 1 ≤ workers) {v : Variable} {setter : Setter}
    (asked : v.asked? vars = some setter) :
    (fromEnvironment workers vars).field v = setter ↔ setter.allowed = true := by
  constructor
  · intro same
    rw [← same]
    exact allowed_field_fromEnvironment present vars v
  · exact field_of_allowed asked

/-- A field depends on its own variable only. -/
theorem field_eq_of_agree {vars' : Variables} {v : Variable}
    (agree : vars' v.name = vars v.name) :
    (fromEnvironment workers vars').field v = (fromEnvironment workers vars).field v := by
  rw [field_fromEnvironment, field_fromEnvironment, Variable.asked?_eq_of_agree agree]

/-- **Loading from the environment.** Whatever the variables hold, the configuration is valid. A
field is what its variable is read as exactly if validation accepts that on top of the defaults, and
the default if nothing is read or it is not accepted; no variable changes a field of another. With
that configuration there is a pool, or a thread cannot be spawned, exactly if the number of workers
is one that a table can be made for and no null character is in the name. -/
theorem fromEnvironment_starts_iff (workers : Nat) (present : 1 ≤ workers) (vars : Variables) :
    (fromEnvironment workers vars).validate = .ok () ∧
    (∀ v setter, v.asked? vars = some setter →
      ((fromEnvironment workers vars).field v = setter ↔
        ((default workers).set setter).validate = .ok ())) ∧
    (∀ v, (∀ setter, v.asked? vars = some setter →
        ((default workers).set setter).validate ≠ .ok ()) →
      (fromEnvironment workers vars).field v = (default workers).field v) ∧
    (∀ changed vars', (∀ name, name ≠ changed → vars' name = vars name) →
      ∀ v : Variable, v.name ≠ changed →
        (fromEnvironment workers vars').field v = (fromEnvironment workers vars).field v) ∧
    (((∃ pool, Pool.start (fromEnvironment workers vars).pool = .ok (.ok pool)) ∨
        ∃ reason,
          Pool.start (fromEnvironment workers vars).pool = .ok (.error (.spawn reason))) ↔
      (fromEnvironment workers vars).pool.workers < unobtainableWorkers ∧
        '\x00' ∉ (fromEnvironment workers vars).pool.threadName.toList) := by
  have valid := validate_fromEnvironment present vars
  refine ⟨valid, ?_, ?_, ?_, Pool.start_of_valid valid⟩
  · intro v setter asked
    rw [validate_set_default_iff present]
    exact field_eq_iff present asked
  · intro v refused
    refine field_of_forall_not_allowed fun setter asked => ?_
    have not_valid := refused setter asked
    rwa [Ne, validate_set_default_iff present, Bool.not_eq_true] at not_valid
  · intro changed vars' agree v other
    exact field_eq_of_agree (agree v.name other)

/-- All five variables are set: a number with blanks and a sign, a blank name, a stack that is too
small, a level in capitals and a switch that is not a word. -/
def mixedVariables : Variables
  | "STRAND_NUM_WORKERS" => some " +2 "
  | "STRAND_THREAD_NAME" => some "  "
  | "STRAND_THREAD_STACK_SIZE" => some "65535"
  | "STRAND_LOG_LEVEL" => some "WARN"
  | "STRAND_LOG_TIMESTAMPS" => some "maybe"
  | _ => none

theorem fromEnvironment_starts_mixed :
    1 ≤ 4 ∧ (fromEnvironment 4 mixedVariables).validate = .ok () ∧
      (fromEnvironment 4 mixedVariables).field .workers = .workers 2 ∧
      (fromEnvironment 4 mixedVariables).field .threadName = .threadName "strand-worker" ∧
      ((∃ pool, Pool.start (fromEnvironment 4 mixedVariables).pool = .ok (.ok pool)) ∨
        ∃ reason, Pool.start (fromEnvironment 4 mixedVariables).pool =
          .ok (.error (.spawn reason))) := by
  have present : 1 ≤ 4 := by decide
  obtain ⟨valid, accepted, refused, -, starts⟩ :=
    fromEnvironment_starts_iff 4 present mixedVariables
  have two : (fromEnvironment 4 mixedVariables).field .workers = .workers 2 := by
    refine (accepted .workers _ (by decide +kernel)).mpr ?_
    rw [validate_set_default_iff present]
    rfl
  have named :
      (fromEnvironment 4 mixedVariables).field .threadName = .threadName "strand-worker" := by
    refine refused .threadName fun setter asked => ?_
    cases asked
    rw [Ne, validate_set_default_iff present]
    decide +kernel
  exact ⟨present, valid, two, named, starts.mpr ⟨by decide +kernel, by decide +kernel⟩⟩

/-- A count of workers for which no table can be made. -/
def overflowingVariables : Variables
  | "STRAND_NUM_WORKERS" => some "288230376151711744"
  | _ => none

/-- The count is read and accepted, and then the pool neither starts nor reports that a thread
cannot be spawned. -/
theorem fromEnvironment_overflows :
    (fromEnvironment 4 overflowingVariables).validate = .ok () ∧
      Pool.start (fromEnvironment 4 overflowingVariables).pool =
        .error (.message "capacity overflow") := by
  have valid : (fromEnvironment 4 overflowingVariables).validate = .ok () :=
    validate_fromEnvironment (by decide) _
  have many : (fromEnvironment 4 overflowingVariables).pool.workers = unobtainableWorkers := by
    decide +kernel
  rw [validate] at valid
  refine ⟨valid, ?_⟩
  rw [Pool.start, valid]
  simp [many]

end Config
end Fibers
