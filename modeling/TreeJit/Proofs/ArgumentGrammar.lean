import TreeJit.Cli.Options

/-! # The grammar of command lines

A command line is read from left to right, with one argument or two at a time.
What it means can be said without reading it: it is a sequence of items, each
setting is that of the last item with its flag, and what stops the reading is the
first place where no item begins.

The non-trivial ingredient is that items are read in one way only.  The argument
behind a flag may look like a flag itself, so that an item has to be taken whole
before the next one can begin (`Item.append_inj`).

* `Item` — a flag, with a value that can be read if the flag takes one.
* `Misfit` — why no item begins at a place, by the error that names it.
* `exists_split` — every command line is a sequence of items, up to a misfit.
* `parse_reads_items` — reading a command line gives the settings of its items, or
  the error of the first misfit.
-/

namespace TreeJit.Cli

open Options (flagValue parse readArguments readCapacity? readValue?)

/-! ## Items -/

/-- What a command line consists of: a flag by itself, or a flag with a value that can be read. -/
inductive Item where
  | shortHelp
  | help
  | dump
  | capacity (raw : String) (size : Nat) (reads : readCapacity? raw = some size)
  | maxCapacity (raw : String) (size : Nat) (reads : readCapacity? raw = some size)
  | value (raw : String) (x : Double) (reads : readValue? raw = some x)

namespace Item

def flag : Item → String
  | .shortHelp => "-h"
  | .help => "--help"
  | .dump => "--dump"
  | .capacity _ _ _ => "--capacity"
  | .maxCapacity _ _ _ => "--max-capacity"
  | .value _ _ _ => "--value"

/-- What stands behind the flag. -/
def operands : Item → List String
  | .shortHelp | .help | .dump => []
  | .capacity raw _ _ | .maxCapacity raw _ _ | .value raw _ _ => [raw]

/-- The arguments that an item is written with. -/
def arguments (item : Item) : List String := item.flag :: item.operands

/-- The command line that consists of some items. -/
def spell (items : List Item) : List String := items.flatMap arguments

def capacity? : Item → Option Nat
  | .capacity _ size _ => some size
  | _ => none

def maxCapacity? : Item → Option Nat
  | .maxCapacity _ size _ => some size
  | _ => none

def value? : Item → Option Double
  | .value _ x _ => some x
  | _ => none

/-- The last value that is given for a setting, if there is one. -/
def last {α : Type} (setting? : Item → Option α) (items : List Item) : Option α :=
  (items.filterMap setting?).getLast?

/-- What items ask for: the last value given for each setting or else its default, and whether flags
without a value are there.  The limit is raised to the capacity. -/
def settings (items : List Item) : Options :=
  let defaults : Options := {}
  let capacity := (last capacity? items).getD defaults.capacity
  { capacity := capacity
    maxCapacity := max ((last maxCapacity? items).getD defaults.maxCapacity) capacity
    value := (last value? items).getD defaults.value
    dump := items.any (·.flag = "--dump")
    help := items.any (·.flag = "-h") || items.any (·.flag = "--help") }

end Item

/-! ## Misfits -/

/-- The flags without a value. -/
def plainFlags : List String := ["-h", "--help", "--dump"]

/-- The flags that take the next argument for their value. -/
def valueFlags : List String := ["--capacity", "--max-capacity", "--value"]

/-- Whether an argument can be read as the value of a flag. -/
def accepts (flag raw : String) : Bool :=
  if flag = "--value" then (readValue? raw).isSome else (readCapacity? raw).isSome

/-- `Misfit rest e`: no item begins at the remaining arguments `rest`, for the reason `e`. -/
inductive Misfit : List String → ArgumentError → Prop where
  | unknown {argument : String} {rest : List String} (notPlain : argument ∉ plainFlags)
      (notValue : argument ∉ valueFlags) : Misfit (argument :: rest) (.unknown argument)
  | missing {flag : String} (valued : flag ∈ valueFlags) : Misfit [flag] (.missing flag)
  | invalid {flag raw : String} {rest : List String} (valued : flag ∈ valueFlags)
      (refused : ¬accepts flag raw) : Misfit (flag :: raw :: rest) (.invalid flag raw)

/-! ## Splitting a command line -/

/-- Items are read in one way only. -/
theorem Item.append_inj {item item' : Item} {rest rest' : List String}
    (same : item.arguments ++ rest = item'.arguments ++ rest') : item = item' ∧ rest = rest' := by
  -- The flag tells the kind of the item and so where it ends, and its value is what is read there.
  obtain ⟨flags, behind⟩ : item.flag = item'.flag ∧
      item.operands ++ rest = item'.operands ++ rest' := List.cons.inj same
  cases item <;> cases item' <;> simp only [flag, operands] at flags behind <;> grind

theorem Item.spell_injective {items items' : List Item} (same : spell items = spell items') :
    items = items' := by
  induction items generalizing items' with
  | nil =>
    cases items' with
    | nil => rfl
    | cons item items' => cases same
  | cons item items ih =>
    cases items' with
    | nil => cases same
    | cons item' items' =>
      obtain ⟨rfl, rest⟩ := append_inj same
      rw [ih rest]

theorem exists_item_of_accepts {flag raw : String} (valued : flag ∈ valueFlags)
    (accepted : accepts flag raw) : ∃ item : Item, item.arguments = [flag, raw] := by
  simp only [valueFlags, List.mem_cons, List.not_mem_nil, or_false] at valued
  rcases valued with rfl | rfl | rfl
  · obtain ⟨size, reads⟩ := Option.isSome_iff_exists.1 accepted
    exact ⟨.capacity raw size reads, rfl⟩
  · obtain ⟨size, reads⟩ := Option.isSome_iff_exists.1 accepted
    exact ⟨.maxCapacity raw size reads, rfl⟩
  · obtain ⟨x, reads⟩ := Option.isSome_iff_exists.1 accepted
    exact ⟨.value raw x reads, rfl⟩

/-- Where there are arguments left, an item begins or there is a reason why none does. -/
theorem item_or_misfit (argument : String) (rest : List String) :
    (∃ (item : Item) (behind : List String), argument :: rest = item.arguments ++ behind) ∨
      ∃ e, Misfit (argument :: rest) e := by
  by_cases plain : argument ∈ plainFlags
  · left
    simp only [plainFlags, List.mem_cons, List.not_mem_nil, or_false] at plain
    rcases plain with rfl | rfl | rfl
    · exact ⟨.shortHelp, rest, rfl⟩
    · exact ⟨.help, rest, rfl⟩
    · exact ⟨.dump, rest, rfl⟩
  by_cases valued : argument ∈ valueFlags
  · cases rest with
    | nil => exact .inr ⟨_, .missing valued⟩
    | cons raw rest =>
      by_cases accepted : accepts argument raw
      · obtain ⟨item, written⟩ := exists_item_of_accepts valued accepted
        exact .inl ⟨item, rest, by rw [written]; rfl⟩
      · exact .inr ⟨_, .invalid valued accepted⟩
  · exact .inr ⟨_, .unknown plain valued⟩

/-- A command line is a sequence of items, or one up to the first misfit. -/
theorem exists_split (arguments : List String) :
    (∃ items, arguments = Item.spell items) ∨
      ∃ items rest e, arguments = Item.spell items ++ rest ∧ Misfit rest e := by
  induction length : arguments.length using Nat.strongRecOn generalizing arguments with
  | ind _ ih =>
    cases arguments with
    | nil => exact .inl ⟨[], rfl⟩
    | cons argument rest =>
      rcases item_or_misfit argument rest with ⟨item, behind, split⟩ | ⟨e, misfit⟩
      · have shorter : behind.length < (argument :: rest).length := by
          rw [split, List.length_append, Item.arguments, List.length_cons]
          omega
        rcases ih _ (length ▸ shorter) behind rfl with ⟨items, rfl⟩ | ⟨items, rest', e, rfl, misfit⟩
        · exact .inl ⟨item :: items, split⟩
        · refine .inr ⟨item :: items, rest', e, ?_, misfit⟩
          rw [split, ← List.append_assoc]
          rfl
      · exact .inr ⟨[], _, e, rfl, misfit⟩

/-! ## Reading items -/

namespace Item

/-- The options after an item. -/
def apply (options : Options) : Item → Options
  | .shortHelp | .help => { options with help := true }
  | .dump => { options with dump := true }
  | .capacity _ size _ => { options with capacity := size }
  | .maxCapacity _ size _ => { options with maxCapacity := size }
  | .value _ x _ => { options with value := x }

theorem readArguments_append (item : Item) (options : Options) (rest : List String) :
    readArguments options (item.arguments ++ rest) = readArguments (apply options item) rest := by
  cases item with
  | shortHelp | help | dump => simp [arguments, flag, operands, readArguments, apply]
  | capacity raw _ reads | maxCapacity raw _ reads | value raw _ reads =>
    simp only [arguments, flag, operands, List.cons_append, List.nil_append, readArguments,
      flagValue, reads]
    rfl

theorem readArguments_spell_append (items : List Item) (options : Options) (rest : List String) :
    readArguments options (spell items ++ rest) =
      readArguments (items.foldl apply options) rest := by
  induction items generalizing options with
  | nil => rfl
  | cons item items ih =>
    rw [spell, List.flatMap_cons, List.append_assoc, readArguments_append]
    exact ih _

theorem last_cons {α : Type} (setting? : Item → Option α) (item : Item) (items : List Item)
    (initial : α) : (last setting? (item :: items)).getD initial =
      (last setting? items).getD ((setting? item).getD initial) := by
  cases setting : setting? item with
  | none => simp [last, setting]
  | some x => simp [last, setting, List.getLast?_cons]

/-- Each item overrides what was set before, so that the last one counts. -/
theorem foldl_apply (items : List Item) (options : Options) :
    items.foldl apply options =
      { capacity := (last capacity? items).getD options.capacity
        maxCapacity := (last maxCapacity? items).getD options.maxCapacity
        value := (last value? items).getD options.value
        dump := options.dump || items.any (·.flag = "--dump")
        help := options.help || items.any (·.flag = "-h") || items.any (·.flag = "--help") } := by
  induction items generalizing options with
  | nil => simp [last]
  | cons item items ih =>
    rw [List.foldl_cons, ih]
    simp only [last_cons]
    cases item <;> simp [apply, capacity?, maxCapacity?, value?, flag]

/-- A command line of items is refused only if its last capacity is zero. -/
theorem parse_spell (items : List Item) :
    parse (spell items) =
      if last capacity? items = some 0 then .error .zeroCapacity else .ok (settings items) := by
  have read : readArguments {} (spell items) = .ok (items.foldl apply {}) := by
    rw [← List.append_nil (spell items), readArguments_spell_append, readArguments]
  have zero : (items.foldl apply {}).capacity = 0 ↔ last capacity? items = some 0 := by
    rw [foldl_apply]
    cases last capacity? items with
    | none => simp [defaultCapacity]
    | some size => simp
  rw [parse, read]
  change Options.settle _ = _
  simp only [Options.settle, zero]
  split
  · rfl
  · rw [foldl_apply]
    simp [settings]

end Item

theorem Misfit.readArguments_eq {rest : List String} {e : ArgumentError} (misfit : Misfit rest e)
    (options : Options) : readArguments options rest = .error e := by
  cases misfit with
  | unknown notPlain notValue =>
    simp only [plainFlags, valueFlags, List.mem_cons, List.not_mem_nil, or_false, not_or]
      at notPlain notValue
    simp [readArguments, notPlain, notValue]
  | missing valued =>
    simp only [valueFlags, List.mem_cons, List.not_mem_nil, or_false] at valued
    rcases valued with rfl | rfl | rfl <;>
    · simp only [readArguments, flagValue]
      rfl
  | @invalid flag raw rest valued refused =>
    simp only [valueFlags, List.mem_cons, List.not_mem_nil, or_false] at valued
    rcases valued with rfl | rfl | rfl
    case inr.inr =>
      have unread : readValue? raw = none := by simpa [accepts] using refused
      simp only [readArguments, flagValue, unread]
      rfl
    all_goals
      have unread : readCapacity? raw = none := by simpa [accepts] using refused
      simp only [readArguments, flagValue, unread]
      rfl

theorem Misfit.parse_eq {rest : List String} {e : ArgumentError} (misfit : Misfit rest e)
    (items : List Item) : parse (Item.spell items ++ rest) = .error e := by
  rw [parse, Item.readArguments_spell_append, misfit.readArguments_eq]
  rfl

/-! ## Reordering -/

/-- `Reordered items items'`: the same items, where those with one flag stand in the same order. -/
def Reordered (items items' : List Item) : Prop :=
  ∀ flag : String, items.filter (·.flag = flag) = items'.filter (·.flag = flag)

theorem Item.last_filter {α : Type} {setting? : Item → Option α} {flag : String}
    (only : ∀ item : Item, item.flag ≠ flag → setting? item = none) (items : List Item) :
    last setting? (items.filter (·.flag = flag)) = last setting? items := by
  rw [last, last, List.filterMap_filter]
  congr 2
  funext item
  by_cases own : item.flag = flag
  · simp [own]
  · simp [own, only item own]

theorem Item.any_filter (items : List Item) (flag : String) :
    (items.filter (·.flag = flag)).any (·.flag = flag) = items.any (·.flag = flag) := by
  simp only [List.any_filter, Bool.and_self]

/-- Each setting depends on the items with its flag, and on their order only. -/
theorem Reordered.settings_eq {items items' : List Item} (same : Reordered items items') :
    Item.last Item.capacity? items = Item.last Item.capacity? items' ∧
      Item.settings items = Item.settings items' := by
  have last {α : Type} {setting? : Item → Option α} (flag : String)
      (only : ∀ item : Item, item.flag ≠ flag → setting? item = none) :
      Item.last setting? items = Item.last setting? items' := by
    rw [← Item.last_filter only, same, Item.last_filter only]
  have any (flag : String) : items.any (·.flag = flag) = items'.any (·.flag = flag) := by
    rw [← Item.any_filter, same, Item.any_filter]
  have capacity : Item.last Item.capacity? items = Item.last Item.capacity? items' := by
    apply last "--capacity"
    intro item other
    cases item with
    | capacity => exact absurd rfl other
    | _ => rfl
  have maxCapacity : Item.last Item.maxCapacity? items = Item.last Item.maxCapacity? items' := by
    apply last "--max-capacity"
    intro item other
    cases item with
    | maxCapacity => exact absurd rfl other
    | _ => rfl
  have value : Item.last Item.value? items = Item.last Item.value? items' := by
    apply last "--value"
    intro item other
    cases item with
    | value => exact absurd rfl other
    | _ => rfl
  exact ⟨capacity, by simp only [Item.settings, capacity, maxCapacity, value, any]⟩

/-! ## Command lines -/

variable {arguments : List String}

theorem parse_ok_iff {options : Options} : parse arguments = .ok options ↔
    ∃ items, arguments = Item.spell items ∧ Item.last Item.capacity? items ≠ some 0 ∧
      options = Item.settings items := by
  constructor
  · intro ok
    rcases exists_split arguments with ⟨items, rfl⟩ | ⟨items, rest, e, rfl, misfit⟩
    · rw [Item.parse_spell] at ok
      split at ok
      case isTrue => cases ok
      case isFalse nonzero =>
        cases ok
        exact ⟨items, rfl, nonzero, rfl⟩
    · rw [misfit.parse_eq] at ok
      cases ok
  · rintro ⟨items, rfl, nonzero, rfl⟩
    rw [Item.parse_spell, if_neg nonzero]

theorem parse_error_iff {e : ArgumentError} : parse arguments = .error e ↔
    (∃ items rest, arguments = Item.spell items ++ rest ∧ Misfit rest e) ∨
      e = .zeroCapacity ∧ ∃ items, arguments = Item.spell items ∧
        Item.last Item.capacity? items = some 0 := by
  constructor
  · intro failed
    rcases exists_split arguments with ⟨items, rfl⟩ | ⟨items, rest, e', rfl, misfit⟩
    · rw [Item.parse_spell] at failed
      split at failed
      case isTrue zero =>
        cases failed
        exact .inr ⟨rfl, items, rfl, zero⟩
      case isFalse => cases failed
    · rw [misfit.parse_eq] at failed
      cases failed
      exact .inl ⟨items, rest, rfl, misfit⟩
  · rintro (⟨items, rest, rfl, misfit⟩ | ⟨rfl, items, rfl, zero⟩)
    · exact misfit.parse_eq items
    · rw [Item.parse_spell, if_pos zero]

theorem Item.one_le_capacity {items : List Item} (nonzero : last capacity? items ≠ some 0) :
    1 ≤ (settings items).capacity := by
  cases given : last capacity? items with
  | none => simp [settings, given, defaultCapacity]
  | some size =>
    have positive : size ≠ 0 := by simpa [given] using nonzero
    simpa [settings, given] using Nat.one_le_iff_ne_zero.2 positive

/-- A command line is accepted exactly if it is a sequence of items and the last capacity that it
gives, if any, is not zero.  It then has the settings of its items, with a capacity of at least one.
Otherwise the error is that of the first place where no item begins, and the one about the capacity
if there is no such place.  There is only one way to take a command line for items, and what it
gives stays the same if items with different flags change places. -/
theorem parse_reads_items (arguments : List String) :
    (∀ options, parse arguments = .ok options ↔ ∃ items, arguments = Item.spell items ∧
      Item.last Item.capacity? items ≠ some 0 ∧ options = Item.settings items) ∧
    (∀ options, parse arguments = .ok options → 1 ≤ options.capacity) ∧
    (∀ e, parse arguments = .error e ↔
      (∃ items rest, arguments = Item.spell items ++ rest ∧ Misfit rest e) ∨
        e = .zeroCapacity ∧ ∃ items, arguments = Item.spell items ∧
          Item.last Item.capacity? items = some 0) ∧
    (∀ items items', arguments = Item.spell items → arguments = Item.spell items' →
      items = items') ∧
    (∀ items items', arguments = Item.spell items → Reordered items items' →
      parse (Item.spell items') = parse arguments) := by
  refine ⟨fun options => parse_ok_iff, fun options ok => ?_, fun e => parse_error_iff, ?_, ?_⟩
  · obtain ⟨items, -, nonzero, rfl⟩ := parse_ok_iff.1 ok
    exact Item.one_le_capacity nonzero
  · rintro items items' rfl same
    exact Item.spell_injective same
  · rintro items items' rfl same
    obtain ⟨capacity, settings⟩ := same.settings_eq
    rw [Item.parse_spell, Item.parse_spell, capacity, settings]

/-- A flag is taken for the value of the flag before it, a later capacity makes up for an earlier
one of zero, and a capacity of zero is not noticed where there is a misfit. -/
theorem capacity_given_twice :
    parse ["--capacity", "0", "--dump", "--capacity", "7"] = .ok { capacity := 7, dump := true } ∧
    parse ["--capacity", "0", "--value", "--dump"] = .error (.invalid "--value" "--dump") := by
  obtain ⟨accepted, -⟩ := parse_reads_items ["--capacity", "0", "--dump", "--capacity", "7"]
  obtain ⟨-, -, failed, -⟩ := parse_reads_items ["--capacity", "0", "--value", "--dump"]
  have zero : readCapacity? "0" = some 0 := by decide +kernel
  have seven : readCapacity? "7" = some 7 := by decide +kernel
  have refused : ¬accepts "--value" "--dump" := by decide +kernel
  refine ⟨(accepted _).2 ⟨[.capacity "0" 0 zero, .dump, .capacity "7" 7 seven], rfl, ?_, ?_⟩,
    (failed _).2 (.inl ⟨[.capacity "0" 0 zero], ["--value", "--dump"], rfl, .invalid ?_ refused⟩)⟩
  · intro none
    cases none
  · rfl
  · decide

end TreeJit.Cli
