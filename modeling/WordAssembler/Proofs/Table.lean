import Mathlib.Data.List.Nodup
import WordAssembler.Symbol.Table

/-!
Symbol tables as finite maps, and the one change that a source line can make to them. A change
never moves a symbol that has a location.
-/

set_option autoImplicit false

namespace WordAssembler

/-- An item is found by its key where no other item has that key. -/
theorem find?_key_eq_some_iff {α β : Type} [BEq β] [LawfulBEq β] {key : α → β} {items : List α}
    (distinct : (items.map key).Nodup) {wanted : β} {item : α} :
    items.find? (key · == wanted) = some item ↔ item ∈ items ∧ key item = wanted := by
  constructor
  · intro found
    have same := List.find?_some found
    exact ⟨List.mem_of_find?_eq_some found, beq_iff_eq.1 same⟩
  · rintro ⟨member, rfl⟩
    cases found : items.find? (key · == key item) with
    | none =>
      have other := List.find?_eq_none.1 found item member
      simp at other
    | some first =>
      have same := List.find?_some found
      have only := List.inj_on_of_nodup_map distinct (List.mem_of_find?_eq_some found) member
        (beq_iff_eq.1 same)
      rw [only]

namespace Symbol

theorem usage_of_isLocal {symbol : Symbol} (inside : symbol.isLocal = true) :
    symbol.usage = .label ∨ symbol.usage = .entry := by
  unfold isLocal at inside
  split at inside
  · rename_i usage
    exact Or.inl usage
  · rename_i usage
    exact Or.inr usage
  · cases inside

theorem ne_equated_of_isLocal {symbol : Symbol} (inside : symbol.isLocal = true) :
    symbol.usage ≠ .equated := by
  rcases usage_of_isLocal inside with usage | usage <;> simp [usage]

theorem find?_place (symbol : Symbol) (symbols : List Symbol) (label : Bytes) :
    (place symbol symbols).find? (·.label == label) =
      if symbol.label = label then some symbol else symbols.find? (·.label == label) := by
  induction symbols with
  | nil => by_cases same : symbol.label = label <;> simp [place, same]
  | cons head rest ih =>
    simp only [place]
    split
    · by_cases same : symbol.label = label <;> simp [same]
    · split
      · rename_i equal
        by_cases same : symbol.label = label
        · simp [same]
        · have other : head.label ≠ label := fun heads => same (equal.trans heads)
          simp [same, other]
      · rename_i different
        by_cases heads : head.label = label
        · have other : symbol.label ≠ label := fun same => different (same.trans heads.symm)
          simp [heads, other]
        · rw [List.find?_cons_of_neg (by simpa using heads), ih,
            List.find?_cons_of_neg (by simpa using heads)]

namespace Table

variable {table : Table} {label : Bytes} {symbol : Symbol}

theorem label_of_get? (found : table.get? label = some symbol) : symbol.label = label := by
  simpa using List.find?_some found

theorem mem_of_get? (found : table.get? label = some symbol) : symbol ∈ table.symbols :=
  List.mem_of_find?_eq_some found

theorem get?_of_mem (member : symbol ∈ table.symbols) :
    table.get? symbol.label = some symbol := by
  have found : ∀ symbols : List Symbol, Ascending symbols → symbol ∈ symbols →
      symbols.find? (·.label == symbol.label) = some symbol := by
    intro symbols ascending member
    induction symbols with
    | nil => cases member
    | cons head rest ih =>
      obtain ⟨above, ordered⟩ := List.pairwise_cons.1 ascending
      rcases List.mem_cons.1 member with rfl | later
      · exact List.find?_cons_of_pos (by simp)
      · have other : head.label ≠ symbol.label := by
          intro same
          exact List.lt_irrefl _ (same ▸ above symbol later)
        rw [List.find?_cons_of_neg (by simpa using other)]
        exact ih ordered later
  exact found table.symbols table.ascending member

theorem get?_insert (table : Table) (symbol : Symbol) (label : Bytes) :
    (table.insert symbol).get? label =
      if symbol.label = label then some symbol else table.get? label :=
  find?_place symbol table.symbols label

theorem get?_insert_self (table : Table) (symbol : Symbol) :
    (table.insert symbol).get? symbol.label = some symbol := by
  rw [get?_insert, if_pos rfl]

theorem get?_insert_of_ne (other : symbol.label ≠ label) :
    (table.insert symbol).get? label = table.get? label := by
  rw [get?_insert, if_neg other]

theorem mem_insert {other : Symbol} (member : other ∈ (table.insert symbol).symbols) :
    other = symbol ∨ other ∈ table.symbols :=
  mem_place member

theorem extend_of_absent (absent : table.get? symbol.label = none) :
    table.extend symbol = table.insert symbol := by
  simp [extend, contains, absent]

theorem contains_eq_false : table.contains label = false ↔ table.get? label = none := by
  simp [contains]

/-! ### The change of a line -/

/-- What a source line read at a location can do to the symbols without giving one an address: turn
a label into an entry, add a symbol whose address is not known, or add an equated one. -/
inductive Declares (location : Int) (table : Table) : Table → Prop
  | same : Declares location table table
  | promote (symbol : Symbol) (found : table.get? symbol.label = some symbol)
      (label : symbol.usage = .label) :
      Declares location table (table.insert { symbol with usage := .entry })
  | unlocated (label : Bytes) (usage : Usage) (absent : table.get? label = none)
      (other : usage = .entry ∨ usage = .external) :
      Declares location table (table.insert ⟨label, none, usage, 0, 0⟩)
  | equate (symbol : Symbol) (absent : table.get? symbol.label = none)
      (usage : symbol.usage = .equated) (value : 0 ≤ location → 0 ≤ symbol.value) :
      Declares location table (table.insert symbol)

/-- What one source line can do to the symbols, where `location` is the address that its label gets:
besides declarations, define the label there or give an entry its address. -/
inductive Step (location : Int) (table : Table) : Table → Prop
  | declare {next : Table} (declares : Declares location table next) : Step location table next
  | define (label : Bytes) (absent : table.get? label = none) :
      Step location table (table.insert ⟨label, some location, .label, 0, 0⟩)
  | locate (symbol : Symbol) (found : table.get? symbol.label = some symbol)
      (entry : symbol.usage = .entry) (unlocated : symbol.location = none) :
      Step location table (table.insert { symbol with location := some location })

variable {location address : Int} {next : Table}

theorem Step.same (location : Int) (table : Table) : Step location table table := .declare .same

section Keeps

variable (found : table.get? label = some symbol)
include found

theorem ne_of_absent {other : Symbol} (absent : table.get? other.label = none) :
    other.label ≠ label := by
  rintro rfl
  rw [absent] at found
  cases found

theorem eq_of_found {other : Symbol} (known : table.get? other.label = some other)
    (same : other.label = label) : other = symbol := by
  subst same
  exact Option.some.inj (known.symm.trans found)

theorem Declares.keeps (declares : Declares location table next)
    (located : symbol.location = some address) :
    ∃ later, next.get? label = some later ∧ later.location = some address := by
  cases declares with
  | same => exact ⟨symbol, found, located⟩
  | promote other known _ =>
    by_cases same : other.label = label
    · obtain rfl := eq_of_found found known same
      exact ⟨{ other with usage := .entry }, by rw [get?_insert, if_pos same], located⟩
    · exact ⟨symbol, by rw [get?_insert, if_neg same, found], located⟩
  | unlocated name usage absent _ =>
    have apart : (⟨name, none, usage, 0, 0⟩ : Symbol).label ≠ label := ne_of_absent found absent
    exact ⟨symbol, (get?_insert_of_ne apart).trans found, located⟩
  | equate other absent _ _ =>
    exact ⟨symbol, (get?_insert_of_ne (ne_of_absent found absent)).trans found, located⟩

/-- A symbol that has a location keeps it. -/
theorem Step.keeps (step : Step location table next) (located : symbol.location = some address) :
    ∃ later, next.get? label = some later ∧ later.location = some address := by
  cases step with
  | declare declares => exact declares.keeps found located
  | define name absent =>
    have apart : (⟨name, some location, .label, 0, 0⟩ : Symbol).label ≠ label :=
      ne_of_absent found absent
    exact ⟨symbol, (get?_insert_of_ne apart).trans found, located⟩
  | locate other known _ unlocated =>
    have apart : other.label ≠ label := by
      intro same
      rw [eq_of_found found known same, located] at unlocated
      cases unlocated
    exact ⟨symbol, by rw [get?_insert, if_neg apart, found], located⟩

/-- The name of the program stays what it is. -/
theorem Step.keeps_program (step : Step location table next)
    (program : symbol.usage = .programName) : next.get? label = some symbol := by
  have other : ∀ {changed known : Symbol}, table.get? known.label = some known →
      known.usage ≠ .programName → changed.label = known.label →
      (table.insert changed).get? label = some symbol := by
    intro changed known at_ usage same
    rw [get?_insert, if_neg, found]
    intro here
    exact usage (eq_of_found found at_ (same.symm.trans here) ▸ program)
  cases step with
  | declare declares =>
    cases declares with
    | same => exact found
    | promote known at_ usage => exact other at_ (by simp [usage]) rfl
    | unlocated name usage absent _ =>
      have apart : (⟨name, none, usage, 0, 0⟩ : Symbol).label ≠ label := ne_of_absent found absent
      exact (get?_insert_of_ne apart).trans found
    | equate symbol absent _ _ =>
      exact (get?_insert_of_ne (ne_of_absent found absent)).trans found
  | define name absent =>
    have apart : (⟨name, some location, .label, 0, 0⟩ : Symbol).label ≠ label :=
      ne_of_absent found absent
    exact (get?_insert_of_ne apart).trans found
  | locate known at_ usage _ => exact other at_ (by simp [usage]) rfl

end Keeps

/-- An address that is not equated is as old as the table. -/
theorem Declares.old_address (declares : Declares location table next)
    (member : symbol ∈ next.symbols) (usage : symbol.usage ≠ .equated)
    (located : symbol.location = some address) :
    ∃ old ∈ table.symbols, old.usage ≠ .equated ∧ old.location = some address := by
  cases declares with
  | same => exact ⟨symbol, member, usage, located⟩
  | promote other known label =>
    rcases mem_insert member with rfl | old
    · exact ⟨other, mem_of_get? known, by simp [label], located⟩
    · exact ⟨symbol, old, usage, located⟩
  | unlocated name other _ _ =>
    rcases mem_insert member with rfl | old
    · cases located
    · exact ⟨symbol, old, usage, located⟩
  | equate other _ equated _ =>
    rcases mem_insert member with rfl | old
    · exact absurd equated usage
    · exact ⟨symbol, old, usage, located⟩

/-- An address that is not equated is as old as the table, or that of the line. -/
theorem Step.old_address (step : Step location table next) (member : symbol ∈ next.symbols)
    (usage : symbol.usage ≠ .equated) (located : symbol.location = some address) :
    (∃ old ∈ table.symbols, old.usage ≠ .equated ∧ old.location = some address) ∨
      address = location := by
  cases step with
  | declare declares => exact Or.inl (declares.old_address member usage located)
  | define name absent =>
    rcases mem_insert member with rfl | old
    · exact Or.inr (Option.some.inj located).symm
    · exact Or.inl ⟨symbol, old, usage, located⟩
  | locate other _ _ _ =>
    rcases mem_insert member with rfl | old
    · exact Or.inr (Option.some.inj located).symm
    · exact Or.inl ⟨symbol, old, usage, located⟩

/-- An address of the program is as old as the table, or that of the line. -/
theorem Step.local_address (step : Step location table next) (member : symbol ∈ next.symbols)
    (inside : symbol.isLocal = true) :
    (∃ old ∈ table.symbols, old.isLocal = true ∧ old.address = symbol.address) ∨
      symbol.address = location := by
  have unchanged (old : symbol ∈ table.symbols) :
      (∃ old ∈ table.symbols, old.isLocal = true ∧ old.address = symbol.address) ∨
        symbol.address = location := Or.inl ⟨symbol, old, inside, rfl⟩
  cases step with
  | declare declares =>
    cases declares with
    | same => exact unchanged member
    | promote other known label =>
      rcases mem_insert member with rfl | old
      · exact Or.inl ⟨other, mem_of_get? known, by simp [Symbol.isLocal, label], rfl⟩
      · exact unchanged old
    | unlocated name usage _ other =>
      rcases mem_insert member with rfl | old
      · rcases other with rfl | rfl <;> cases inside
      · exact unchanged old
    | equate other _ usage _ =>
      rcases mem_insert member with rfl | old
      · simp [Symbol.isLocal, usage] at inside
      · exact unchanged old
  | define name absent =>
    rcases mem_insert member with rfl | old
    · exact Or.inr rfl
    · exact unchanged old
  | locate other _ _ _ =>
    rcases mem_insert member with rfl | old
    · exact Or.inr rfl
    · exact unchanged old

/-- Values are not negative if none was and the line is at an address. -/
theorem Step.value_nonneg (step : Step location table next) (lower : 0 ≤ location)
    (values : ∀ symbol ∈ table.symbols, 0 ≤ symbol.value) :
    ∀ symbol ∈ next.symbols, 0 ≤ symbol.value := by
  intro symbol member
  cases step with
  | declare declares =>
    cases declares with
    | same => exact values symbol member
    | promote other known _ =>
      rcases mem_insert member with rfl | old
      · exact values other (mem_of_get? known)
      · exact values symbol old
    | unlocated name usage _ _ =>
      rcases mem_insert member with rfl | old
      · exact Int.le_refl 0
      · exact values symbol old
    | equate other _ _ value =>
      rcases mem_insert member with rfl | old
      · exact value lower
      · exact values symbol old
  | define name absent =>
    rcases mem_insert member with rfl | old
    · exact Int.le_refl 0
    · exact values symbol old
  | locate other known _ _ =>
    rcases mem_insert member with rfl | old
    · exact values other (mem_of_get? known)
    · exact values symbol old

end Table

end Symbol

end WordAssembler
