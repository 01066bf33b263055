import Mathlib.Data.List.Sort
import WordAssembler.Proofs.Stability

/-!
A declaration read ahead of its place. Two tables are the same but for one label, that the first
declares an entry or external already and the second does not yet. A line that is read without
diagnostics with either table does the same to the rest of the program, and leaves tables that are
again the same but for the label.
-/

set_option autoImplicit false

namespace WordAssembler

open Expression

/-! ### Tables -/

namespace Symbol

/-- What a table finds that declares a label already, and what one finds that does not yet: the
same, an unlocated symbol and none, or a located entry and a label at the same address. -/
inductive Ahead (label : Bytes) : Option Symbol → Option Symbol → Prop
  | same (found : Option Symbol) : Ahead label found found
  | absent (usage : Usage) (either : usage = .entry ∨ usage = .external) :
      Ahead label (some ⟨label, none, usage, 0, 0⟩) none
  | located (symbol : Symbol) (plain : symbol.usage = .label) (placed : symbol.isLocated = true) :
      Ahead label (some { symbol with usage := .entry }) (some symbol)

namespace Table

/-- A table is known by what it finds. -/
theorem ext_get? {first second : Table} (same : ∀ label, second.get? label = first.get? label) :
    second = first := by
  have member : ∀ (table : Table) (symbol : Symbol),
      symbol ∈ table.symbols ↔ table.get? symbol.label = some symbol :=
    fun _ _ => ⟨get?_of_mem, mem_of_get?⟩
  let before (a b : Symbol) : Prop := a.label < b.label
  have irreflexive : Std.Irrefl before := ⟨fun a => List.lt_irrefl a.label⟩
  have antisymmetric : Std.Antisymm before :=
    ⟨fun a b less more => absurd (List.lt_trans less more) (List.lt_irrefl a.label)⟩
  have symbols : second.symbols = first.symbols := by
    refine List.Pairwise.eq_of_mem_iff (r := before) second.ascending first.ascending ?_
    intro symbol
    rw [member, member, same]
  cases first
  cases second
  congr

/-- Two tables that are the same but for a label that the first declares already. -/
structure Ahead (label : Bytes) (first second : Table) : Prop where
  other : ∀ name ≠ label, second.get? name = first.get? name
  here : Symbol.Ahead label (first.get? label) (second.get? label)

variable {label name : Bytes} {first second next last : Table}

theorem Ahead.refl (label : Bytes) (table : Table) : table.Ahead label table :=
  ⟨fun _ _ => rfl, .same _⟩

/-- What the tables find for any name. -/
theorem Ahead.finds (ahead : first.Ahead label second) (name : Bytes) :
    Symbol.Ahead name (first.get? name) (second.get? name) := by
  by_cases same : name = label
  · rw [same]
    exact ahead.here
  · rw [ahead.other name same]
    exact .same _

/-- The same symbol is put into both. -/
theorem Ahead.insert (ahead : first.Ahead label second) (symbol : Symbol) :
    (first.insert symbol).Ahead label (second.insert symbol) := by
  refine ⟨fun name other => ?_, ?_⟩
  · rw [get?_insert, get?_insert, ahead.other name other]
  · rw [get?_insert, get?_insert]
    split
    · exact .same _
    · exact ahead.here

/-- Symbols of the label are put into both. -/
theorem Ahead.insert_both (ahead : first.Ahead label second) {one another : Symbol}
    (here : one.label = label) (there : another.label = label)
    (known : Symbol.Ahead label (some one) (some another)) :
    (first.insert one).Ahead label (second.insert another) := by
  refine ⟨fun name other => ?_, ?_⟩
  · have apart : label ≠ name := Ne.symm other
    rw [get?_insert_of_ne (by rwa [there]), get?_insert_of_ne (by rwa [here]),
      ahead.other name other]
  · rw [get?_insert, get?_insert, if_pos here, if_pos there]
    exact known

/-- The second table catches up. -/
theorem Ahead.insert_second (ahead : first.Ahead label second) {symbol : Symbol}
    (there : symbol.label = label) (found : first.get? label = some symbol) :
    second.insert symbol = first := by
  apply ext_get?
  intro name
  rw [get?_insert]
  split
  · rename_i same
    rw [← same, there, found]
  · rename_i apart
    exact ahead.other name fun same => apart (there.trans same.symm)

/-! ### What a line does to a table -/

/-- A label is put at an address: it is new, or an entry without an address. -/
inductive Defines (name : Bytes) (address : Int) (table : Table) : Table → Prop
  | new (absent : table.get? name = none) :
      Defines name address table (table.insert ⟨name, some address, .label, 0, 0⟩)
  | place (symbol : Symbol) (found : table.get? name = some symbol) (entry : symbol.usage = .entry)
      (unlocated : symbol.location = none) :
      Defines name address table (table.insert { symbol with location := some address })

/-- A name is made an entry: it is new, a label, or an entry already. -/
inductive Exports (name : Bytes) (table : Table) : Table → Prop
  | new (absent : table.get? name = none) :
      Exports name table (table.insert ⟨name, none, .entry, 0, 0⟩)
  | promote (symbol : Symbol) (found : table.get? name = some symbol)
      (plain : symbol.usage = .label) :
      Exports name table (table.insert { symbol with usage := .entry })
  | already (symbol : Symbol) (found : table.get? name = some symbol)
      (entry : symbol.usage = .entry) : Exports name table table

/-- A name is external: it is new. -/
inductive Imports (name : Bytes) (table : Table) : Table → Prop
  | new (absent : table.get? name = none) :
      Imports name table (table.insert ⟨name, none, .external, 0, 0⟩)

section Ahead

variable (ahead : first.Ahead label second) {address : Int}
include ahead

/-- Only the label can be known to one table and not to the other. -/
theorem Ahead.label_of_absent {symbol : Symbol} (known : first.get? name = some symbol)
    (absent : second.get? name = none) : name = label := by
  by_contra other
  rw [ahead.other name other, known] at absent
  cases absent

theorem Ahead.defines (one : Defines name address first next)
    (another : Defines name address second last) : next.Ahead label last := by
  have finds := ahead.finds name
  cases one with
  | new absent =>
    cases another with
    | new missing => exact ahead.insert _
    | place symbol found _ _ =>
      rw [absent, found] at finds
      cases finds
  | place symbol found entry unlocated =>
    cases another with
    | new missing =>
      have same := ahead.label_of_absent found missing
      rw [found, missing] at finds
      cases finds
      cases entry
      exact ahead.insert_both same same
        (.located ⟨name, some address, .label, 0, 0⟩ rfl rfl)
    | place other known plain _ =>
      rw [found, known] at finds
      cases finds with
      | same => exact ahead.insert _
      | located _ label =>
        rw [label] at plain
        cases plain

/-- The second table makes an entry of the label that the first has as an entry. -/
theorem Ahead.catch_up_entry {symbol : Symbol} (known : first.get? label = some symbol)
    (entry : symbol.usage = .entry) (exports : Exports label second last) : last = first := by
  have here := ahead.here
  rw [known] at here
  cases exports with
  | new absent =>
    rw [absent] at here
    cases here
    cases entry
    exact ahead.insert_second rfl known
  | promote other found plain =>
    rw [found] at here
    cases here with
    | same =>
      rw [plain] at entry
      cases entry
    | located =>
      have there : other.label = label := label_of_get? found
      exact ahead.insert_second there known
  | already other found again =>
    rw [found] at here
    cases here with
    | same =>
      apply ext_get?
      intro name
      by_cases same : name = label
      · rw [same, known, found]
      · exact ahead.other name same
    | located _ plain =>
      rw [plain] at again
      cases again

/-- The second table takes the label as external that the first has as external. -/
theorem Ahead.catch_up_external {symbol : Symbol} (known : first.get? label = some symbol)
    (external : symbol.usage = .external) (imports : Imports label second last) :
    last = first := by
  have here := ahead.here
  cases imports with
  | new absent =>
    rw [known, absent] at here
    cases here
    cases external
    exact ahead.insert_second rfl known

theorem Ahead.exports (one : Exports name first next) (another : Exports name second last) :
    next.Ahead label last := by
  have finds := ahead.finds name
  cases one with
  | new absent =>
    rw [absent] at finds
    cases another with
    | new missing => exact ahead.insert _
    | promote symbol found _ =>
      rw [found] at finds
      cases finds
    | already symbol found _ =>
      rw [found] at finds
      cases finds
  | promote symbol found plain =>
    rw [found] at finds
    cases another with
    | new missing =>
      rw [missing] at finds
      cases finds with
      | absent usage either => rcases either with rfl | rfl <;> cases plain
    | promote other known _ =>
      rw [known] at finds
      cases finds with
      | same => exact ahead.insert _
      | located => cases plain
    | already other known entry =>
      rw [known] at finds
      cases finds with
      | same =>
        rw [plain] at entry
        cases entry
      | located => cases plain
  | already symbol found entry =>
    by_cases same : name = label
    · subst same
      rw [ahead.catch_up_entry found entry another]
      exact .refl _ _
    · rw [← ahead.other name same] at found
      cases another with
      | new missing =>
        rw [missing] at found
        cases found
      | promote other known plain =>
        rw [known] at found
        cases found
        rw [plain] at entry
        cases entry
      | already => exact ahead

theorem Ahead.imports (one : Imports name first next) (another : Imports name second last) :
    next.Ahead label last := by
  cases one with
  | new absent =>
    cases another with
    | new missing => exact ahead.insert _

/-- A program begins in both, unless the label is its name. -/
theorem Ahead.extend {symbol : Symbol} (program : symbol.usage = .programName)
    (free : ∀ known, (second.extend symbol).get? label = some known →
      known.usage ≠ .programName) :
    (first.extend symbol).Ahead label (second.extend symbol) := by
  have finds := ahead.finds symbol.label
  cases here : first.get? symbol.label with
  | none =>
    rw [here] at finds
    cases there : second.get? symbol.label with
    | none =>
      rw [extend_of_absent here, extend_of_absent there]
      exact ahead.insert _
    | some known =>
      rw [there] at finds
      cases finds
  | some known =>
    have unchanged : first.extend symbol = first := by
      rw [Table.extend, if_pos (by simp [contains, here])]
    cases there : second.get? symbol.label with
    | none =>
      have same := ahead.label_of_absent here there
      rw [extend_of_absent there] at free
      exact absurd program (free symbol (by rw [get?_insert, if_pos same]))
    | some other =>
      rw [unchanged, Table.extend, if_pos (by simp [contains, there])]
      exact ahead

end Ahead

end Table

end Symbol

/-! ### Equates -/

namespace Expression.Evaluator

variable {label : Bytes} {first second : Evaluator}
  (ahead : first.symbols.Ahead label second.symbols) {location limit : Int}
include ahead

theorem equateTerm_ahead {isFirst : Bool} {term : Bytes} {found other : Equate}
    (one : first.equateTerm location isFirst term = .ok found)
    (another : second.equateTerm location isFirst term = .ok other) : other = found := by
  have finds := ahead.finds term
  unfold equateTerm at one another
  by_cases alone : term = star
  · rw [if_pos alone] at one another
    exact Except.ok.inj (another.symm.trans one)
  · rw [if_neg alone] at one another
    generalize first.symbols.get? term = known at finds one
    generalize second.symbols.get? term = there at finds another
    cases finds with
    | same => exact Except.ok.inj (another.symm.trans one)
    | absent usage either =>
      -- The first finds a symbol that an equate cannot use.
      rcases either with rfl | rfl <;> cases one
    | located symbol plain placed =>
      have local_ : symbol.isLocal = true := by
        simp only [Symbol.isLocal, plain]
      have entry : ({ symbol with usage := .entry } : Symbol).isLocal = true := placed
      dsimp only at one another
      rw [if_neg (by simp), if_pos entry] at one
      rw [if_neg (by simp [plain]), if_pos local_] at another
      exact Except.ok.inj (another.symm.trans one)

theorem equateTerms_ahead {values : List Int} {counted : Int} {terms : List Bytes}
    {found other : List Int × Int}
    (one : first.equateTerms location values counted terms = .ok found)
    (another : second.equateTerms location values counted terms = .ok other) : other = found := by
  induction terms generalizing values counted with
  | nil => exact Except.ok.inj (another.symm.trans one)
  | cons term later ih =>
    rw [equateTerms] at one another
    split at one
    · cases one
    · rename_i here value
      split at another
      · cases another
      · rename_i there again
        rw [equateTerm_ahead ahead value again] at another
        exact ih one another

/-- An equate that both can evaluate has one value. -/
theorem equate_ahead {expression : Bytes} {found other : Equate}
    (one : first.equate expression location limit = .ok found)
    (another : second.equate expression location limit = .ok other) : other = found := by
  unfold equate at one another
  by_cases alone : expression = star
  · rw [if_pos alone] at one another
    exact Except.ok.inj (another.symm.trans one)
  · rw [if_neg alone] at one another
    cases parts : split expression limit with
    | error key =>
      rw [parts] at one
      cases one
    | ok terms =>
      rw [parts] at one another
      dsimp only at one another
      split at one
      · cases one
      · rename_i values relocations evaluated
        split at another
        · cases another
        · rename_i again
          cases equateTerms_ahead ahead evaluated again
          exact Except.ok.inj (another.symm.trans one)

end Expression.Evaluator

/-! ### Passes -/

namespace Pass

def on (p : Pass) (symbols : Symbol.Table) : Pass := { p with symbols := symbols }

section On

variable (p : Pass) (assembler : Assembler) (symbols : Symbol.Table)

theorem note_on (entry : Bytes) :
    (p.on symbols).note assembler entry = (p.note assembler entry).on symbols := by
  unfold note
  split <;> rfl

theorem report_on (key : Key) :
    (p.on symbols).report assembler key = (p.report assembler key).on symbols := by
  unfold report note
  dsimp only
  split <;> rfl

theorem keepComment_on (token : Token) :
    (if token.kind = .comment then (p.on symbols).setComment (some token.text)
      else p.on symbols) =
    (if token.kind = .comment then p.setComment (some token.text) else p).on symbols := by
  split <;> rfl

theorem readLabel_on (column : Option Token) :
    (p.on symbols).readLabel assembler column = (p.readLabel assembler column).on symbols := by
  unfold readLabel
  repeat' split
  · rfl
  · exact report_on p assembler symbols _
  · exact report_on p assembler symbols _
  · rfl

theorem ignoreLabel_on :
    (p.on symbols).ignoreLabel assembler = (p.ignoreLabel assembler).on symbols := by
  unfold ignoreLabel
  change (if p.line.label.isSome then _ else _) = _
  split
  · exact report_on p assembler symbols _
  · rfl

theorem readTrailing_on (rest : Bytes) :
    (p.on symbols).readTrailing assembler rest =
      (p.readTrailing assembler rest).on symbols := by
  unfold readTrailing
  dsimp only
  split
  · rfl
  · rfl
  · exact report_on p assembler symbols _

theorem finishLine_on (rest : Bytes) :
    (p.on symbols).finishLine assembler rest = (p.finishLine assembler rest).on symbols := by
  unfold finishLine
  rw [readTrailing_on]
  generalize p.readTrailing assembler rest = read
  change (if p.fatal.isSome then p.on symbols else
    if read.line.addressed && read.line.has .serious && !read.line.isInvalidated then
      (read.on symbols).invalidate
    else read.on symbols) = _
  dsimp only
  split
  · rfl
  · split <;> rfl

theorem readOperand_on (rest : Bytes) :
    (p.on symbols).readOperand assembler rest = ((p.readOperand assembler rest).1,
      (p.readOperand assembler rest).2.1, (p.readOperand assembler rest).2.2.on symbols) := by
  unfold readOperand
  dsimp only
  rw [keepComment_on, report_on]
  split <;> rfl

theorem readFunction_on (group : Group) (rest : Bytes) :
    (p.on symbols).readFunction assembler group rest = ((p.readFunction assembler group rest).1,
      (p.readFunction assembler group rest).2.1,
      (p.readFunction assembler group rest).2.2.on symbols) := by
  unfold readFunction
  dsimp only
  rw [readOperand_on]
  split <;> rfl

end On

/-- Two passes that are the same but for the symbols, where the first has a declaration ahead. -/
inductive Ahead (label : Bytes) (p : Pass) : Pass → Prop
  | intro (symbols : Symbol.Table) (ahead : p.symbols.Ahead label symbols) :
      Ahead label p (p.on symbols)

variable {label : Bytes} {p q : Pass} (assembler : Assembler)

theorem Ahead.symbols (ahead : Ahead label p q) : p.symbols.Ahead label q.symbols := by
  obtain ⟨symbols, ahead⟩ := ahead
  exact ahead

theorem Ahead.context (ahead : Ahead label p q) : q.context = p.context := by
  obtain ⟨symbols, _⟩ := ahead
  rfl

theorem Ahead.line (ahead : Ahead label p q) : q.line = p.line := by
  obtain ⟨symbols, _⟩ := ahead
  rfl

/-- Work that does not look at the symbols. -/
theorem Ahead.step {w : Pass → Pass} (ahead : Ahead label p q)
    (blind : ∀ p symbols, w (p.on symbols) = (w p).on symbols) : Ahead label (w p) (w q) := by
  obtain ⟨symbols, ahead⟩ := ahead
  have own : (w (p.on p.symbols)).symbols = p.symbols := by
    rw [blind]
    rfl
  have kept : (w p).symbols = p.symbols := own
  rw [blind]
  exact .intro symbols (kept ▸ ahead)

/-- Work that changes nothing but the symbols. -/
theorem Ahead.change (ahead : Ahead label p q) {first second : Symbol.Table}
    (changed : first.Ahead label second) : Ahead label (p.on first) (q.on second) := by
  obtain ⟨symbols, _⟩ := ahead
  exact .intro second changed

/-! ### Labels and words -/

theorem defineLabel_defines {name : Bytes} {address : Int}
    (quiet : (p.defineLabel assembler name address).Quiet) : ∃ next,
    p.symbols.Defines name address next ∧ p.defineLabel assembler name address = p.on next := by
  unfold defineLabel at quiet ⊢
  split at quiet
  · rename_i absent
    rw [Symbol.Table.extend_of_absent absent]
    exact ⟨_, .new absent, rfl⟩
  · rename_i symbol found
    split at quiet
    · rename_i free
      rw [if_pos free]
      exact ⟨_, .place symbol found free.1 (by simpa [Symbol.isLocated] using free.2), rfl⟩
    · exact absurd quiet (report_not_quiet p assembler _)

/-! ### Declarations -/

theorem applyEntry_exports {operand : Operand} (quiet : (p.applyEntry assembler operand).Quiet) :
    operand.kind = .symbol ∧ ∃ next, p.symbols.Exports operand.text next ∧
      p.applyEntry assembler operand = (p.ignoreLabel assembler).on next := by
  obtain ⟨_, remarks⟩ := ignoreLabel_remarks p assembler
  have symbols : (p.ignoreLabel assembler).symbols = p.symbols := remarks.symbols
  unfold applyEntry at quiet ⊢
  dsimp only at quiet ⊢
  rw [← symbols]
  split at quiet
  · rename_i kind
    refine ⟨kind, ?_⟩
    rw [if_pos kind]
    split at quiet
    · rename_i absent
      rw [Symbol.Table.extend_of_absent absent]
      exact ⟨_, .new absent, rfl⟩
    · rename_i symbol found
      split at quiet
      · rename_i plain
        exact ⟨_, .promote symbol found plain, rfl⟩
      · rename_i entry
        exact ⟨_, .already symbol found entry, rfl⟩
      · exact absurd quiet (report_not_quiet _ assembler _)
  · exact absurd quiet (report_not_quiet _ assembler _)

theorem applyExternal_imports {operand : Operand}
    (quiet : (p.applyExternal assembler operand).Quiet) :
    operand.kind = .symbol ∧ ∃ next, p.symbols.Imports operand.text next ∧
      p.applyExternal assembler operand = (p.ignoreLabel assembler).on next := by
  obtain ⟨_, remarks⟩ := ignoreLabel_remarks p assembler
  have symbols : (p.ignoreLabel assembler).symbols = p.symbols := remarks.symbols
  unfold applyExternal at quiet ⊢
  dsimp only at quiet ⊢
  rw [← symbols]
  split at quiet
  · rename_i kind
    refine ⟨kind, ?_⟩
    rw [if_pos kind]
    split at quiet
    · exact absurd quiet (report_not_quiet _ assembler _)
    · rename_i known
      have absent := Symbol.Table.contains_eq_false.1 (by simpa using known)
      rw [if_neg known, Symbol.Table.extend_of_absent absent]
      exact ⟨_, .new absent, rfl⟩
  · exact absurd quiet (report_not_quiet _ assembler _)

variable (ahead : Ahead label p q)
include ahead

theorem Ahead.defineLabel {name : Bytes} {address : Int}
    (quiet : (p.defineLabel assembler name address).Quiet)
    (silent : (q.defineLabel assembler name address).Quiet) :
    Ahead label (p.defineLabel assembler name address)
      (q.defineLabel assembler name address) := by
  obtain ⟨first, one, left⟩ := defineLabel_defines assembler quiet
  obtain ⟨second, other, right⟩ := defineLabel_defines assembler silent
  rw [left, right]
  exact ahead.change (ahead.symbols.defines one other)

theorem Ahead.defineOwnLabel (quiet : (p.defineOwnLabel assembler).Quiet)
    (silent : (q.defineOwnLabel assembler).Quiet) :
    Ahead label (p.defineOwnLabel assembler) (q.defineOwnLabel assembler) := by
  unfold Pass.defineOwnLabel at quiet silent ⊢
  rw [ahead.line, ahead.context] at silent ⊢
  cases named : p.line.label with
  | none => exact ahead
  | some name =>
    rw [named] at quiet silent
    exact ahead.defineLabel assembler quiet silent

theorem Ahead.allocate {next : Pass → Pass} (quiet : (p.allocate assembler next).Quiet)
    (silent : (q.allocate assembler next).Quiet)
    (same : ∀ {p q : Pass}, Ahead label p q → (next p).Quiet → (next q).Quiet →
      Ahead label (next p) (next q)) :
    Ahead label (p.allocate assembler next) (q.allocate assembler next) := by
  unfold Pass.allocate at quiet silent ⊢
  rw [ahead.context] at silent ⊢
  split at quiet
  · exact absurd quiet (report_not_quiet p assembler _)
  · rename_i room
    rw [if_neg room] at silent
    rw [if_neg room, if_neg room]
    exact same (ahead.step fun _ _ => rfl) quiet silent

/-! ### Instructions -/

/-- An equate stands for its value with either table. -/
theorem Ahead.substitute (instruction : Instruction) :
    q.substitute instruction = p.substitute instruction := by
  have finds := ahead.symbols.finds instruction.operand.text
  unfold Pass.substitute
  split
  · generalize p.symbols.get? instruction.operand.text = known at finds
    generalize q.symbols.get? instruction.operand.text = there at finds
    cases finds with
    | same => rfl
    | absent usage either => rcases either with rfl | rfl <;> rfl
    | located symbol plain _ => simp [plain]
  · rfl

theorem Ahead.encodeLine {instruction : Instruction}
    (quiet : (p.encodeLine assembler instruction).Quiet) :
    Ahead label (p.encodeLine assembler instruction) (q.encodeLine assembler instruction) := by
  unfold Pass.encodeLine at quiet ⊢
  split at quiet
  · exact absurd quiet (report_not_quiet p assembler _)
  · rename_i known
    rw [if_neg known, if_neg known]
    split at quiet
    · rename_i malformed
      rw [if_pos malformed, if_pos malformed]
      exact ahead.step (w := Pass.invalidate) fun _ _ => rfl
    · rename_i formed
      rw [if_neg formed, if_neg formed]
      dsimp only at quiet ⊢
      rw [ahead.substitute]
      split at quiet
      · rename_i word _
        have stated := ahead.step (w := (·.setStatement (.instruction (p.substitute instruction))))
          fun _ _ => rfl
        exact stated.step (w := (·.setWord word)) fun _ _ => rfl
      · exact absurd quiet (report_not_quiet _ assembler _)

theorem Ahead.readInstruction {group : Group} {rest : Bytes}
    (quiet : (p.readInstruction assembler group rest).1.Quiet)
    (silent : (q.readInstruction assembler group rest).1.Quiet) :
    Ahead label (p.readInstruction assembler group rest).1
        (q.readInstruction assembler group rest).1 ∧
      (q.readInstruction assembler group rest).2 =
        (p.readInstruction assembler group rest).2 := by
  have encodes : ∀ (q : Pass) (instruction : Instruction),
      Follows q (q.encodeLine assembler instruction) :=
    fun q instruction => q.encodeLine_follows assembler instruction
  have read : Ahead label (p.readFunction assembler group rest).2.2
      (q.readFunction assembler group rest).2.2 :=
    ahead.step (w := fun p => (p.readFunction assembler group rest).2.2) fun p symbols => by
      rw [readFunction_on]
  have same : (q.readFunction assembler group rest).1 = (p.readFunction assembler group rest).1 ∧
      (q.readFunction assembler group rest).2.1 = (p.readFunction assembler group rest).2.1 := by
    obtain ⟨symbols, _⟩ := ahead
    rw [readFunction_on]
    exact ⟨rfl, rfl⟩
  unfold Pass.readInstruction at quiet silent ⊢
  dsimp only at quiet silent ⊢
  rw [same.1] at silent ⊢
  refine ⟨?_, same.2⟩
  have labelled := (read.step (w := (·.setStatement (.instruction
    (p.readFunction assembler group rest).1))) fun _ _ => rfl).defineOwnLabel assembler
    ((allocate_follows _ assembler _ fun q => encodes q _).quiet quiet)
    ((allocate_follows _ assembler _ fun q => encodes q _).quiet silent)
  exact labelled.allocate assembler quiet silent fun ahead quiet _ =>
    ahead.encodeLine assembler quiet

/-! ### Directives -/

theorem Ahead.ignoreLabel : Ahead label (p.ignoreLabel assembler) (q.ignoreLabel assembler) :=
  ahead.step (w := (·.ignoreLabel assembler)) fun p symbols => ignoreLabel_on p assembler symbols

theorem Ahead.applyEnd {operand : Operand} (quiet : (p.applyEnd assembler operand).Quiet) :
    Ahead label (p.applyEnd assembler operand) (q.applyEnd assembler operand) := by
  have ignored := ahead.ignoreLabel assembler
  unfold Pass.applyEnd at quiet ⊢
  dsimp only at quiet ⊢
  rw [ignored.context]
  split at quiet
  · rename_i named
    rw [if_pos named, if_pos named]
    exact ignored.step (w := (·.mapContext fun context => { context with ended := true }))
      fun _ _ => rfl
  · exact absurd quiet (report_not_quiet _ assembler _)

theorem Ahead.applyEntry {operand : Operand} (quiet : (p.applyEntry assembler operand).Quiet)
    (silent : (q.applyEntry assembler operand).Quiet) :
    Ahead label (p.applyEntry assembler operand) (q.applyEntry assembler operand) := by
  obtain ⟨_, first, one, left⟩ := applyEntry_exports assembler quiet
  obtain ⟨_, second, other, right⟩ := applyEntry_exports assembler silent
  rw [left, right]
  exact (ahead.ignoreLabel assembler).change (ahead.symbols.exports one other)

theorem Ahead.applyExternal {operand : Operand}
    (quiet : (p.applyExternal assembler operand).Quiet)
    (silent : (q.applyExternal assembler operand).Quiet) :
    Ahead label (p.applyExternal assembler operand) (q.applyExternal assembler operand) := by
  obtain ⟨_, first, one, left⟩ := applyExternal_imports assembler quiet
  obtain ⟨_, second, other, right⟩ := applyExternal_imports assembler silent
  rw [left, right]
  exact (ahead.ignoreLabel assembler).change (ahead.symbols.imports one other)

theorem Ahead.beginProgram {name : Bytes} {load : Int}
    (free : ∀ symbol, (q.beginProgram name load).symbols.get? label = some symbol →
      symbol.usage ≠ .programName) :
    Ahead label (p.beginProgram name load) (q.beginProgram name load) := by
  obtain ⟨symbols, ahead⟩ := ahead
  have begun : (p.symbols.extend ⟨name, some load, .programName, 0, 0⟩).Ahead label
      (symbols.extend ⟨name, some load, .programName, 0, 0⟩) := ahead.extend rfl free
  exact .intro (p := p.beginProgram name load) _ begun

theorem Ahead.applyStart {operand : Operand} (quiet : (p.applyStart assembler operand).Quiet)
    (free : ∀ symbol, (q.applyStart assembler operand).symbols.get? label = some symbol →
      symbol.usage ≠ .programName) :
    Ahead label (p.applyStart assembler operand) (q.applyStart assembler operand) := by
  unfold Pass.applyStart at quiet free ⊢
  rw [ahead.context, ahead.line] at free ⊢
  split at quiet
  · exact absurd quiet (report_not_quiet p assembler _)
  · rename_i fresh
    rw [if_neg fresh] at free
    rw [if_neg fresh, if_neg fresh]
    cases named : p.line.label with
    | none =>
      rw [named] at quiet free
      dsimp only at quiet free ⊢
      split at quiet
      · rename_i symbol
        rw [if_pos symbol] at free
        rw [if_pos symbol, if_pos symbol]
        exact ahead.beginProgram free
      · exact absurd quiet (report_not_quiet p assembler _)
    | some name =>
      rw [named] at quiet free
      dsimp only at quiet free ⊢
      split at quiet
      · rename_i number
        rw [if_pos number] at free
        rw [if_pos number, if_pos number]
        exact ahead.beginProgram free
      · exact absurd quiet (report_not_quiet p assembler _)

theorem Ahead.equate (name : Bytes) (directive : Directive) (operand : Operand)
    (found : Evaluator.Equate) (absent : p.symbols.get? name = none)
    (missing : q.symbols.get? name = none) :
    Ahead label (p.equate name directive operand found)
      (q.equate name directive operand found) := by
  obtain ⟨symbols, ahead⟩ := ahead
  let symbol : Symbol :=
    ⟨name, some p.context.location, .equated, found.value, found.relocations⟩
  have extended : (p.symbols.extend symbol).Ahead label (symbols.extend symbol) := by
    rw [Symbol.Table.extend_of_absent absent, Symbol.Table.extend_of_absent missing]
    exact ahead.insert symbol
  exact .intro (p := p.equate name directive operand found) _ extended

theorem Ahead.equateBy {name : Bytes} {directive : Directive} {operand : Operand}
    {outcome : Except Evaluator.EquateFault Evaluator.Equate}
    (quiet : (p.equateBy assembler name directive operand outcome).Quiet)
    (absent : p.symbols.get? name = none) (missing : q.symbols.get? name = none) :
    Ahead label (p.equateBy assembler name directive operand outcome)
      (q.equateBy assembler name directive operand outcome) := by
  cases outcome with
  | ok found => exact ahead.equate name directive operand found absent missing
  | error fault => exact absurd quiet (report_not_quiet p assembler _)

/-- An equate that neither table refuses has one outcome. -/
theorem Ahead.outcome {name : Bytes} {directive : Directive} {operand : Operand}
    {entry other : Bytes}
    (quiet : ((p.note assembler entry).equateBy assembler name directive operand
      (p.evaluator.equate operand.text p.context.location directive.operatorLimit)).Quiet)
    (silent : ((q.note assembler other).equateBy assembler name directive operand
      (q.evaluator.equate operand.text p.context.location directive.operatorLimit)).Quiet) :
    q.evaluator.equate operand.text p.context.location directive.operatorLimit =
      p.evaluator.equate operand.text p.context.location directive.operatorLimit := by
  cases one : p.evaluator.equate operand.text p.context.location directive.operatorLimit with
  | error fault =>
    rw [one] at quiet
    exact absurd quiet (report_not_quiet _ assembler _)
  | ok found =>
    cases another :
        q.evaluator.equate operand.text p.context.location directive.operatorLimit with
    | error fault =>
      rw [another] at silent
      exact absurd silent (report_not_quiet _ assembler _)
    | ok second =>
      have known : p.evaluator.symbols.Ahead label q.evaluator.symbols := ahead.symbols
      rw [Evaluator.equate_ahead known one another]

theorem Ahead.applyEquate {directive : Directive} {operand : Operand}
    (quiet : (p.applyEquate assembler directive operand).Quiet)
    (silent : (q.applyEquate assembler directive operand).Quiet) :
    Ahead label (p.applyEquate assembler directive operand)
      (q.applyEquate assembler directive operand) := by
  unfold Pass.applyEquate at quiet silent ⊢
  rw [ahead.line, ahead.context] at silent ⊢
  cases named : p.line.label with
  | none =>
    rw [named] at quiet
    exact absurd quiet (report_not_quiet p assembler _)
  | some name =>
    rw [named] at quiet silent
    dsimp only at quiet silent ⊢
    split at quiet
    · exact absurd quiet (report_not_quiet p assembler _)
    · rename_i new
      split at silent
      · exact absurd silent (report_not_quiet q assembler _)
      · rename_i fresh
        rw [if_neg new, if_neg fresh]
        have absent := Symbol.Table.contains_eq_false.1 (by simpa using new)
        have missing := Symbol.Table.contains_eq_false.1 (by simpa using fresh)
        split at quiet
        · rename_i numeric
          rw [if_pos numeric] at silent
          rw [if_pos numeric, if_pos numeric]
          split at quiet
          · rename_i inside
            rw [if_pos inside, if_pos inside]
            exact ahead.equate name directive operand _ absent missing
          · exact absurd quiet (report_not_quiet p assembler _)
        · rename_i numberless
          rw [if_neg numberless] at silent
          rw [if_neg numberless, if_neg numberless]
          cases kind : operand.kind with
          | symbol | expression =>
            rw [kind] at quiet silent
            have outcome := ahead.outcome assembler quiet silent
            dsimp only at quiet silent ⊢
            rw [outcome]
            have noted := ahead.step (w := (·.note assembler (Evaluator.equateTrace operand.text
              p.context.location (p.evaluator.equate operand.text p.context.location
                directive.operatorLimit)))) fun p symbols => note_on p assembler symbols _
            refine noted.equateBy assembler quiet ?_ ?_
            · rw [note_symbols, absent]
            · rw [note_symbols, missing]
          | malformed => exact ahead
          | none | number | hex | binary | integer | char =>
            rw [kind] at quiet
            exact absurd quiet (report_not_quiet p assembler _)

theorem Ahead.applyReset {operand : Operand} (quiet : (p.applyReset assembler operand).Quiet)
    (silent : (q.applyReset assembler operand).Quiet) :
    Ahead label (p.applyReset assembler operand) (q.applyReset assembler operand) := by
  have target : q.resetTarget? operand = p.resetTarget? operand := by
    have finds := ahead.symbols.finds operand.text
    unfold Pass.resetTarget?
    generalize p.symbols.get? operand.text = known at finds
    generalize q.symbols.get? operand.text = there at finds
    cases finds with
    | same => rfl
    | absent usage either => rcases either with rfl | rfl <;> rfl
    | located symbol plain _ => simp [Option.filter, plain]
  unfold Pass.applyReset at quiet silent ⊢
  rw [ahead.line, ahead.context, target] at silent
  rw [ahead.line, ahead.context, target]
  cases named : p.line.label with
  | none =>
    rw [named] at quiet
    exact absurd quiet (report_not_quiet p assembler _)
  | some name =>
    rw [named] at quiet silent
    dsimp only at quiet silent ⊢
    cases moved : p.resetTarget? operand with
    | none =>
      rw [moved] at quiet
      exact absurd quiet (report_not_quiet p assembler _)
    | some address =>
      rw [moved] at quiet silent
      dsimp only at quiet silent ⊢
      split at quiet
      · exact absurd quiet (report_not_quiet p assembler _)
      · rename_i forward
        rw [if_neg forward] at silent
        rw [if_neg forward, if_neg forward]
        have defined := ahead.defineLabel assembler quiet silent
        exact defined.step (w := fun p =>
          { p.setStatement (.directive .reset { operand with value := address }) with
            context := { p.context with location := address }
            line := { (p.setStatement
              (.directive .reset { operand with value := address })).line with
              location := address } }) fun _ _ => rfl

/-- A directive with a word: its label is defined, and the word does not depend on the symbols. -/
theorem Ahead.allocateOwn {next : Pass → Pass} (follows : ∀ p, Follows p (next p))
    (blind : ∀ p symbols, next (p.on symbols) = (next p).on symbols)
    (quiet : ((p.defineOwnLabel assembler).allocate assembler next).Quiet)
    (silent : ((q.defineOwnLabel assembler).allocate assembler next).Quiet) :
    Ahead label ((p.defineOwnLabel assembler).allocate assembler next)
      ((q.defineOwnLabel assembler).allocate assembler next) := by
  have labelled := ahead.defineOwnLabel assembler
    ((allocate_follows _ assembler _ follows).quiet quiet)
    ((allocate_follows _ assembler _ follows).quiet silent)
  exact labelled.allocate assembler quiet silent fun ahead _ _ => ahead.step blind

theorem Ahead.applyDirective {directive : Directive} {operand : Operand}
    (quiet : (p.applyDirective assembler directive operand).Quiet)
    (silent : (q.applyDirective assembler directive operand).Quiet)
    (free : ∀ symbol,
      (q.applyDirective assembler directive operand).symbols.get? label = some symbol →
        symbol.usage ≠ .programName) :
    Ahead label (p.applyDirective assembler directive operand)
      (q.applyDirective assembler directive operand) := by
  cases directive with
  | start => exact ahead.applyStart assembler quiet free
  | finish => exact ahead.applyEnd assembler quiet
  | equ | eque => exact ahead.applyEquate assembler quiet silent
  | entry => exact ahead.applyEntry assembler quiet silent
  | extrn => exact ahead.applyExternal assembler quiet silent
  | reset => exact ahead.applyReset assembler quiet silent
  | dat =>
    refine ahead.allocateOwn assembler (fun p => ?_) (fun p symbols => ?_) quiet silent
    · repeat' split
      · exact .silent rfl
      · exact .refl p
      · exact report_follows p assembler _
    · repeat' split
      · rfl
      · rfl
      · exact report_on p assembler symbols _
  | adc | adce =>
    let next (p : Pass) : Pass :=
      if operand.kind = .none then p.report assembler .operandRequired else p
    have follows : ∀ p, Follows p (next p) := by
      intro p
      dsimp only [next]
      split
      · exact report_follows p assembler _
      · exact .refl p
    refine ahead.allocateOwn assembler follows (fun p symbols => ?_) quiet silent
    dsimp only [next]
    split
    · exact report_on p assembler symbols _
    · rfl
  | nop =>
    have idle : ∀ p : Pass, Follows p (p.setWord Line.idleWord) := fun p => .silent rfl
    refine ahead.allocateOwn assembler (fun p => ?_) (fun p symbols => ?_) quiet silent
    · dsimp only
      split
      · exact idle p
      · exact (idle p).trans (report_follows _ assembler _)
    · dsimp only
      split
      · rfl
      · exact report_on (p.setWord Line.idleWord) assembler symbols _

theorem Ahead.readDirective {directive : Directive} {rest : Bytes}
    (quiet : (p.readDirective assembler directive rest).1.Quiet)
    (silent : (q.readDirective assembler directive rest).1.Quiet)
    (free : ∀ symbol,
      (q.readDirective assembler directive rest).1.symbols.get? label = some symbol →
        symbol.usage ≠ .programName) :
    Ahead label (p.readDirective assembler directive rest).1
        (q.readDirective assembler directive rest).1 ∧
      (q.readDirective assembler directive rest).2 =
        (p.readDirective assembler directive rest).2 := by
  have read : Ahead label (p.readOperand assembler rest).2.2
      (q.readOperand assembler rest).2.2 :=
    ahead.step (w := fun p => (p.readOperand assembler rest).2.2) fun p symbols => by
      rw [readOperand_on]
  unfold Pass.readDirective at quiet silent free ⊢
  exact ⟨(read.step (w := (·.setStatement (.directive directive
    (p.readOperand assembler rest).1))) fun _ _ => rfl).applyDirective assembler quiet silent free,
    rfl⟩

/-! ### Whole lines -/

theorem Ahead.finishLine (rest : Bytes) :
    Ahead label (p.finishLine assembler rest) (q.finishLine assembler rest) :=
  ahead.step (w := (·.finishLine assembler rest)) fun p symbols =>
    finishLine_on p assembler symbols rest

theorem Ahead.readUnknown {columns : Columns} (quiet : (p.readUnknown assembler columns).Quiet)
    (silent : (q.readUnknown assembler columns).Quiet) :
    Ahead label (p.readUnknown assembler columns) (q.readUnknown assembler columns) := by
  have commented := ahead.step (w := fun p => if columns.command.kind = .comment then
    p.setComment (some columns.command.text) else p)
    fun p symbols => keepComment_on p symbols columns.command
  unfold Pass.readUnknown at quiet silent ⊢
  dsimp only at quiet silent commented ⊢
  generalize (if columns.command.kind = .comment then
    p.setComment (some columns.command.text) else p) = first at quiet commented ⊢
  generalize (if columns.command.kind = .comment then
    q.setComment (some columns.command.text) else q) = second at silent commented ⊢
  split at quiet
  · rename_i alone
    split at silent
    · rename_i lone
      rw [if_pos alone, if_pos lone]
      exact commented.defineOwnLabel assembler quiet silent
    · exact absurd silent (report_not_quiet _ assembler _)
  · exact absurd quiet (report_not_quiet _ assembler _)

theorem Ahead.readCommand (quiet : (p.readCommand assembler).Quiet)
    (silent : (q.readCommand assembler).Quiet)
    (free : ∀ symbol, (q.readCommand assembler).symbols.get? label = some symbol →
      symbol.usage ≠ .programName) :
    Ahead label (p.readCommand assembler) (q.readCommand assembler) := by
  have labelled := ahead.step (w := (·.readLabel assembler
    (assembler.columns p.line.source).label)) fun p symbols => readLabel_on p assembler symbols _
  cases found : assembler.command? (assembler.columns p.line.source).command with
  | none =>
    rw [readCommand_unknown rfl found] at quiet ⊢
    rw [readCommand_unknown (by rw [ahead.line]) found] at silent ⊢
    exact labelled.readUnknown assembler quiet silent
  | some command =>
    cases command with
    | group group =>
      rw [readCommand_group rfl found] at quiet ⊢
      rw [readCommand_group (by rw [ahead.line]) found] at silent ⊢
      obtain ⟨read, rest⟩ := labelled.readInstruction assembler
        ((finishLine_follows _ assembler _).quiet quiet)
        ((finishLine_follows _ assembler _).quiet silent)
      rw [rest]
      exact read.finishLine assembler _
    | directive directive =>
      rw [readCommand_directive rfl found] at quiet ⊢
      rw [readCommand_directive (by rw [ahead.line]) found] at silent free ⊢
      rw [(finishLine_settles _ assembler _).symbols] at free
      obtain ⟨read, rest⟩ := labelled.readDirective assembler
        ((finishLine_follows _ assembler _).quiet quiet)
        ((finishLine_follows _ assembler _).quiet silent) free
      rw [rest]
      exact read.finishLine assembler _

/-- A line that is read without diagnostics, with the declaration and without it, does the same. -/
theorem Ahead.readLine (quiet : (p.readLine assembler).Quiet)
    (silent : (q.readLine assembler).Quiet)
    (free : ∀ symbol, (q.readLine assembler).symbols.get? label = some symbol →
      symbol.usage ≠ .programName) :
    Ahead label (p.readLine assembler) (q.readLine assembler) := by
  unfold Pass.readLine at quiet silent free ⊢
  rw [ahead.line, ahead.context] at silent free ⊢
  split at quiet
  · exact absurd quiet (report_not_quiet p assembler _)
  · rename_i opening
    rw [if_neg opening] at silent free
    rw [if_neg opening, if_neg opening]
    split at quiet
    · exact absurd quiet (report_not_quiet p assembler _)
    · rename_i open_
      rw [if_neg open_] at silent free
      rw [if_neg open_, if_neg open_]
      split at quiet
      · rename_i blank
        rw [if_pos blank, if_pos blank]
        exact ahead.step (w := Pass.readBlank) fun _ _ => rfl
      · rename_i command
        rw [if_neg command] at silent free
        rw [if_neg command, if_neg command]
        exact ahead.readCommand assembler quiet silent free

end Pass

end WordAssembler
