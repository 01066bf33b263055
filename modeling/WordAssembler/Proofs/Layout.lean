import Mathlib.Algebra.Ring.Int.Defs
import WordAssembler.Proofs.Emission
import WordAssembler.Proofs.Reading

/-!
The layout of memory during the first pass. Once the program has begun, every line keeps the words
given so far in increasing order below the location counter and the labels at the words of their
lines, and the counter has passed just the words given and the gaps skipped. So the text records of
the object file have different locations, and with the gaps they make up its length.
-/

set_option autoImplicit false

namespace WordAssembler

namespace Line

def addresses (lines : List Line) : List Int := (lines.filter (·.addressed)).map (·.location)

theorem addresses_append (first second : List Line) :
    addresses (first ++ second) = addresses first ++ addresses second := by
  simp [addresses]

theorem addresses_of_addressed {line : Line} (addressed : line.addressed = true) :
    addresses [line] = [line.location] := by
  simp [addresses, addressed]

theorem addresses_of_unaddressed {line : Line} (unaddressed : line.addressed = false) :
    addresses [line] = [] := by
  simp [addresses, unaddressed]

theorem mem_addresses {lines : List Line} {address : Int} (member : address ∈ addresses lines) :
    ∃ line ∈ lines, line.addressed = true ∧ line.location = address := by
  simpa [addresses, and_assoc] using member

/-- How many words a RESET line skipped, read when the location counter was at an address. -/
def gap (line : Line) (before : Int) : Int := (line.resetTarget?.map (· - before)).getD 0

end Line

namespace Reading

/-- The layout of a program that has begun. -/
structure Layout (reading : Reading) : Prop where
  started : reading.context.started = true
  lower : reading.context.start ≤ reading.context.location
  upper : reading.context.location ≤ Word.lastAddress + 1
  ordered : (Line.addresses reading.lines.reverse).Pairwise (· < ·)
  inside : ∀ line ∈ reading.lines, line.addressed = true →
    reading.context.start ≤ line.location ∧ line.location ≤ Word.lastAddress ∧
      line.location < reading.context.location
  symbols : ∀ symbol ∈ reading.symbols.symbols, symbol.isLocal = true →
    reading.context.start ≤ symbol.address ∧ symbol.address ≤ reading.context.location
  labels : ∀ line ∈ reading.lines, line.addressed = true →
    ∀ label, line.label = some label → Key.redefined ∉ line.keys →
      Pass.Locates reading.symbols label line.location

/-- Symbols that were within the program stay there when a line is read. -/
theorem symbols_inside {table next : Symbol.Table} {place start before after : Int}
    (step : table.Step place next) (lower : start ≤ place) (upper : place ≤ after)
    (forward : before ≤ after)
    (old : ∀ symbol ∈ table.symbols, symbol.isLocal = true →
      start ≤ symbol.address ∧ symbol.address ≤ before) :
    ∀ symbol ∈ next.symbols, symbol.isLocal = true →
      start ≤ symbol.address ∧ symbol.address ≤ after := by
  intro symbol member inside
  rcases step.local_address member inside with ⟨earlier, known, earlierInside, same⟩ | here
  · have bounds := old earlier known earlierInside
    rw [same] at bounds
    omega
  · omega

/-- Labels that were at their lines' words stay there when a line is read. -/
theorem labels_kept {table next : Symbol.Table} {place address : Int} {label : Bytes}
    (step : table.Step place next) (located : Pass.Locates table label address) :
    Pass.Locates next label address := by
  obtain ⟨symbol, found, here⟩ := located
  exact step.keeps found here

variable {assembler : Assembler} {reading : Reading}

section Step

variable {q : Pass} {place : Int} (layout : reading.Layout)
  (program : reading.context.SameProgram q.context)
  (upper : q.context.location ≤ Word.lastAddress + 1)
  (step : reading.symbols.Step place q.symbols)
include layout program upper step

/-- A line without a word leaves the layout as it was, but for a gap. -/
theorem Layout.gap (forward : reading.context.location ≤ place)
    (here : place = q.context.location) (unaddressed : q.line.addressed = false) :
    (afterPass q reading.lines).Layout := by
  have start : q.context.start = reading.context.start := program.start
  have lower := layout.lower
  refine ⟨program.started.trans layout.started, ?_, upper, ?_, ?_, ?_, ?_⟩
  · change q.context.start ≤ q.context.location
    omega
  · change (Line.addresses (q.line :: reading.lines).reverse).Pairwise (· < ·)
    rw [List.reverse_cons, Line.addresses_append, Line.addresses_of_unaddressed unaddressed,
      List.append_nil]
    exact layout.ordered
  · intro line member addressed
    rcases List.mem_cons.1 member with rfl | earlier
    · rw [unaddressed] at addressed
      cases addressed
    · have inside := layout.inside line earlier addressed
      change q.context.start ≤ line.location ∧ line.location ≤ Word.lastAddress ∧
        line.location < q.context.location
      omega
  · change ∀ symbol ∈ q.symbols.symbols, symbol.isLocal = true →
      q.context.start ≤ symbol.address ∧ symbol.address ≤ q.context.location
    rw [start]
    exact symbols_inside step (by omega) (by omega) (by omega) layout.symbols
  · intro line member addressed label named fresh
    rcases List.mem_cons.1 member with rfl | earlier
    · rw [unaddressed] at addressed
      cases addressed
    · exact labels_kept step (layout.labels line earlier addressed label named fresh)

/-- A line with a word takes the one at the location counter. -/
theorem Layout.word (here : place = reading.context.location)
    (counter : q.context.location = place + 1) (addressed : q.line.addressed = true)
    (placed : q.line.location = place)
    (labelled : ∀ label, q.line.label = some label → Key.redefined ∉ q.line.keys →
      Pass.Locates q.symbols label place) : (afterPass q reading.lines).Layout := by
  have start : q.context.start = reading.context.start := program.start
  have lower := layout.lower
  refine ⟨program.started.trans layout.started, ?_, upper, ?_, ?_, ?_, ?_⟩
  · change q.context.start ≤ q.context.location
    omega
  · change (Line.addresses (q.line :: reading.lines).reverse).Pairwise (· < ·)
    rw [List.reverse_cons, Line.addresses_append, Line.addresses_of_addressed addressed]
    refine List.pairwise_append.2 ⟨layout.ordered, List.pairwise_singleton _ _, ?_⟩
    intro earlier member last same
    obtain ⟨line, known, lineAddressed, rfl⟩ := Line.mem_addresses member
    have inside := layout.inside line (List.mem_reverse.1 known) lineAddressed
    rw [List.mem_singleton.1 same]
    omega
  · intro line member lineAddressed
    change q.context.start ≤ line.location ∧ line.location ≤ Word.lastAddress ∧
      line.location < q.context.location
    rcases List.mem_cons.1 member with rfl | earlier
    · omega
    · have inside := layout.inside line earlier lineAddressed
      omega
  · change ∀ symbol ∈ q.symbols.symbols, symbol.isLocal = true →
      q.context.start ≤ symbol.address ∧ symbol.address ≤ q.context.location
    rw [start]
    exact symbols_inside step (by omega) (by omega) (by omega) layout.symbols
  · intro line member lineAddressed label named fresh
    rcases List.mem_cons.1 member with rfl | earlier
    · rw [placed]
      exact labelled label named fresh
    · exact labels_kept step (layout.labels line earlier lineAddressed label named fresh)

end Step

/-- A line read after the program has begun keeps the layout, and the location counter does not go
back. -/
theorem Layout.afterPass {numbered : Bytes × Nat} {q : Pass} (layout : reading.Layout)
    (advance : (reading.fresh numbered).Advance q) :
    (afterPass q reading.lines).Layout ∧ reading.context.location ≤ q.context.location := by
  have upper := layout.upper
  cases advance with
  | rest program counter unaddressed target symbols =>
    have counter : q.context.location = reading.context.location := counter
    exact ⟨layout.gap program (by omega) symbols (Int.le_refl _) counter.symm unaddressed, by omega⟩
  | word program room counter addressed place target symbols label =>
    have room : reading.context.location ≤ Word.lastAddress := room
    have counter : q.context.location = reading.context.location + 1 := counter
    exact ⟨layout.word program (by omega) symbols rfl counter addressed place label, by omega⟩
  | skip address program forward room counter unaddressed target symbols =>
    have forward : reading.context.location < address := forward
    exact ⟨layout.gap program (by omega) symbols (by omega) counter.symm unaddressed, by omega⟩
  | begin name load fresh =>
    have started : reading.context.started = true := layout.started
    rw [show reading.context.started = false from fresh] at started
    cases started

theorem Layout.add (layout : reading.Layout) (numbered : Bytes × Nat) :
    (add assembler reading numbered).Layout ∧
      reading.context.location ≤ (add assembler reading numbered).context.location := by
  cases halted : reading.fatal.isSome with
  | true =>
    rw [add_of_halted assembler halted]
    exact ⟨layout, Int.le_refl _⟩
  | false =>
    rw [add_of_running assembler (by simpa using halted)]
    have advance := Pass.readLine_advance _ assembler (reading.fresh_isFresh numbered)
    exact layout.afterPass (advance.noteLine assembler)

/-! ### Runs -/

theorem Layout.extended {sources : List Bytes} (layout : (ofLines assembler sources).Layout)
    (more : List Bytes) :
    (ofLines assembler (sources ++ more)).Layout ∧
      (ofLines assembler sources).context.location ≤
        (ofLines assembler (sources ++ more)).context.location := by
  induction more using List.reverseRecOn with
  | nil => simpa using layout
  | append_singleton more source ih =>
    obtain ⟨held, forward⟩ := ih
    rw [← List.append_assoc, ofLines_concat]
    obtain ⟨kept, onward⟩ := held.add (source, (sources ++ more).length + 1)
    exact ⟨kept, Int.le_trans forward onward⟩

/-- A line that begins the program before any symbol is known sets up the layout. -/
theorem layout_of_begin {p q : Pass} (advance : p.Advance q) (empty : p.symbols = .empty)
    (unstarted : p.context.started = false) (started : q.context.started = true) :
    (afterPass q []).Layout := by
  have began : ¬ p.context.SameProgram q.context := by
    intro program
    rw [program.started, unstarted] at started
    cases started
  cases advance with
  | rest program => exact absurd program began
  | word program => exact absurd program began
  | skip address program => exact absurd program began
  | begin name load fresh started program start counter lower upper unaddressed target symbols =>
    have wordless : ∀ line ∈ [q.line], line.addressed ≠ true := by
      intro line member
      rw [List.mem_singleton.1 member, unaddressed]
      exact Bool.false_ne_true
    have elsewhere : ∀ symbol ∈ q.symbols.symbols, symbol.isLocal ≠ true := by
      intro symbol member
      rw [symbols, empty] at member
      rw [List.mem_singleton.1 member]
      exact Bool.false_ne_true
    refine ⟨started, Int.le_of_eq (start.trans counter.symm), ?_, ?_, ?_, ?_, ?_⟩
    · change q.context.location ≤ Word.lastAddress + 1
      omega
    · change (Line.addresses [q.line]).Pairwise (· < ·)
      rw [Line.addresses_of_unaddressed unaddressed]
      exact List.Pairwise.nil
    · exact fun line member addressed => absurd addressed (wordless line member)
    · exact fun symbol member inside => absurd inside (elsewhere symbol member)
    · exact fun line member addressed => absurd addressed (wordless line member)

theorem ofLines_singleton (source : Bytes) : ofLines assembler [source] =
    afterPass ((initial.stepped assembler (source, 1)).noteLine assembler) [] :=
  add_of_running assembler (show initial.fatal = none from rfl) (source, 1)

theorem layout_of_first {source : Bytes}
    (started : (ofLines assembler [source]).context.started = true) :
    (ofLines assembler [source]).Layout := by
  rw [ofLines_singleton] at started ⊢
  have advance := Pass.readLine_advance _ assembler (initial.fresh_isFresh (source, 1))
  exact layout_of_begin (advance.noteLine assembler) rfl rfl started

/-- The layout holds after every line of a source whose first line begins the program, and the
location counter never goes back. -/
theorem layout_of_started {sources : List Bytes}
    (started : (ofLines assembler (sources.take 1)).context.started = true) {j k : Nat}
    (first : 1 ≤ j) (later : j ≤ k) :
    (ofLines assembler (sources.take k)).Layout ∧
      (ofLines assembler (sources.take j)).context.location ≤
        (ofLines assembler (sources.take k)).context.location := by
  have begun : (ofLines assembler (sources.take 1)).Layout := by
    cases sources with
    | nil => cases started
    | cons source rest => exact layout_of_first started
  have split : ∀ {m n : Nat}, m ≤ n →
      sources.take n = sources.take m ++ (sources.drop m).take (n - m) := by
    intro m n le
    rw [← List.take_add, Nat.add_sub_cancel' le]
  have held : (ofLines assembler (sources.take j)).Layout := by
    rw [split first]
    exact (begun.extended _).1
  rw [split later]
  exact held.extended _

/-! ### The length of the program -/

/-- The words that the RESET lines of a source skipped, each from where the location counter was
before the line. -/
def skipped (assembler : Assembler) (sources : List Bytes) : Int :=
  ((ofLines assembler sources).lines.reverse.zipIdx.map fun (line, k) =>
    line.gap (ofLines assembler (sources.take k)).context.location).sum

theorem lines_length {sources : List Bytes} (running : (ofLines assembler sources).fatal = none) :
    (ofLines assembler sources).lines.length = sources.length := by
  induction sources using List.reverseRecOn with
  | nil => rfl
  | append_singleton sources source ih =>
    have before := running_of_append assembler running
    rw [ofLines_concat, add_lines before, List.length_cons, ih before, List.length_append]
    rfl

/-- What one more line adds to the gaps. -/
theorem skipped_concat {sources : List Bytes} {source : Bytes}
    (running : (ofLines assembler sources).fatal = none) :
    skipped assembler (sources ++ [source]) = skipped assembler sources +
      ((ofLines assembler sources).stepped assembler (source, sources.length + 1)).line.gap
        (ofLines assembler sources).context.location := by
  unfold skipped
  rw [ofLines_concat, add_lines running, List.reverse_cons, List.zipIdx_append, List.map_append,
    List.sum_append]
  congr 1
  · congr 1
    apply List.map_congr_left
    rintro ⟨line, k⟩ member
    have below : k < sources.length := by
      have bound := (List.mem_zipIdx member).2.1
      rw [List.length_reverse, lines_length running] at bound
      omega
    dsimp only
    rw [List.take_append_of_le_length (Nat.le_of_lt below)]
  · rw [List.length_reverse, lines_length running]
    simp

/-- What one line adds to the length of a program that has begun: its word or its gap. -/
theorem length_of_advance {p q : Pass} (advance : p.Advance q)
    (started : p.context.started = true) :
    q.context.length = p.context.length + (Line.addresses [q.line]).length +
      q.line.gap p.context.location := by
  unfold Context.length Line.gap
  cases advance with
  | rest program counter unaddressed target =>
    have start := program.start
    rw [target, Line.addresses_of_unaddressed unaddressed]
    simp only [List.length_nil, Option.map_none, Option.getD_none]
    omega
  | word program room counter addressed place target =>
    have start := program.start
    rw [target, Line.addresses_of_addressed addressed]
    simp only [List.length_singleton, Option.map_none, Option.getD_none]
    omega
  | skip address program forward room counter unaddressed target =>
    have start := program.start
    rw [target, Line.addresses_of_unaddressed unaddressed]
    simp only [List.length_nil, Option.map_some, Option.getD_some]
    omega
  | begin name load fresh =>
    rw [started] at fresh
    cases fresh

/-- The line that begins the program adds nothing to its length. -/
theorem length_of_begin {p q : Pass} (advance : p.Advance q) (unstarted : p.context.started = false)
    (started : q.context.started = true) :
    q.context.length = 0 ∧ Line.addresses [q.line] = [] ∧ q.line.resetTarget? = none := by
  have began : ¬ p.context.SameProgram q.context := by
    intro program
    rw [program.started, unstarted] at started
    cases started
  cases advance with
  | rest program => exact absurd program began
  | word program => exact absurd program began
  | skip address program => exact absurd program began
  | begin name load fresh _ program start counter lower upper unaddressed target symbols =>
    refine ⟨?_, Line.addresses_of_unaddressed unaddressed, target⟩
    rw [Context.length, start, counter, Int.sub_self]

/-- The location counter is past the words given and the gaps skipped. -/
theorem length_eq {source : Bytes} {more : List Bytes}
    (started : (ofLines assembler [source]).context.started = true)
    (running : (ofLines assembler (source :: more)).fatal = none) :
    (ofLines assembler (source :: more)).context.length =
      (Line.addresses (ofLines assembler (source :: more)).lines.reverse).length +
        skipped assembler (source :: more) := by
  induction more using List.reverseRecOn with
  | nil =>
    have advance : (initial.fresh (source, 1)).Advance (initial.stepped assembler (source, 1)) :=
      Pass.readLine_advance _ assembler (initial.fresh_isFresh (source, 1))
    unfold skipped
    rw [ofLines_singleton, afterPass, Pass.noteLine_context] at started
    rw [ofLines_singleton, afterPass, Pass.noteLine_context, Pass.noteLine_line]
    obtain ⟨length, addresses, target⟩ := length_of_begin advance rfl started
    simp [length, addresses, Line.gap, target]
  | append_singleton more next ih =>
    rw [← List.cons_append] at running ⊢
    have before := running_of_append assembler running
    have layout : (ofLines assembler ([source] ++ more)).Layout :=
      ((layout_of_first started).extended more).1
    have grown := length_of_advance (Pass.readLine_advance _ assembler
      ((ofLines assembler (source :: more)).fresh_isFresh (next, (source :: more).length + 1)))
      layout.started
    have known := ih before
    rw [skipped_concat before, ofLines_concat, add_context before, add_lines before,
      List.reverse_cons, Line.addresses_append, List.length_append, stepped, grown]
    have context (numbered : Bytes × Nat) : ((ofLines assembler (source :: more)).fresh
      numbered).context = (ofLines assembler (source :: more)).context := rfl
    rw [context, known]
    omega

end Reading

/-! ### Object files -/

namespace Line

theorem addresses_map {lines : List Line} {change : Line → Line}
    (addressed : ∀ line, (change line).addressed = line.addressed)
    (location : ∀ line, (change line).location = line.location) :
    addresses (lines.map change) = addresses lines := by
  simp only [addresses, List.filter_map, List.map_map, Function.comp_def, addressed, location]

theorem Exported.addressed {line exported : Line} (change : line.Exported exported) :
    exported.addressed = line.addressed := by
  cases change <;> rfl

theorem Exported.location {line exported : Line} (change : line.Exported exported) :
    exported.location = line.location := by
  cases change <;> rfl

end Line

theorem Scope.lineAfter_location (scope : Scope) (assembler : Assembler) (line : Line) :
    (scope.lineAfter assembler line).location = line.location := by
  unfold lineAfter
  split
  · cases scope.resolution line <;> rfl
  · rfl

/-- The text records are at the addresses of the lines. -/
theorem Emits.text_locations {assembler : Assembler} {program : Program} {exported : List Line}
    {emitted : Emitted} (emits : Emits assembler program exported emitted) :
    emitted.file.text.map (·.location) = Line.addresses program.lines := by
  obtain ⟨change, changes, lines⟩ := emits.change
  rw [emits.text, List.map_map, ← Line.addresses_map (fun line => (changes line).addressed)
    (fun line => (changes line).location), ← lines]
  apply List.map_congr_left
  intro line _
  exact program.scope.lineAfter_location assembler line

namespace Reading

variable {assembler : Assembler} {reading : Reading} {program : Program}

theorem Closed.addresses (closed : reading.Closed assembler program) :
    Line.addresses program.lines = Line.addresses reading.lines.reverse := by
  cases closed with
  | ended same =>
    rw [same]
    rfl
  | unended last earlier lines same =>
    have single : Line.addresses [last.unended assembler] = Line.addresses [last] := by
      cases addressed : last.addressed <;> simp [Line.addresses, Line.unended, addressed]
    rw [same, lines, List.reverse_cons, List.reverse_cons, Line.addresses_append,
      Line.addresses_append, single]

theorem Closed.length (closed : reading.Closed assembler program) :
    program.context.length = reading.context.length := by
  cases closed with
  | ended same =>
    rw [same]
    rfl
  | unended last earlier lines same =>
    rw [same]
    rfl

end Reading

section Source

variable {assembler : Assembler} {text : Bytes} {date : Date} {emitted : Emitted}
  (started : (Reading.ofLines assembler ((Lines.read text).lines.take 1)).context.started = true)
  (success : assembler.emit (assembler.parse text).program date = .ok emitted)
include started success

/-- The text records of a source whose first line begins the program have different locations. -/
theorem Assembler.text_distinct : (emitted.file.text.map (·.location)).Nodup := by
  obtain ⟨exported, emits⟩ := assembler.emit_emits success
  obtain ⟨running, closed⟩ := assembler.parse_running text emits.running
  have layout := (Reading.layout_of_started started (Nat.le_refl 1)
    (k := (Lines.read text).lines.length + 1) (by omega)).1
  rw [List.take_of_length_le (by omega)] at layout
  rw [emits.text_locations.trans closed.addresses]
  exact layout.ordered.imp Int.ne_of_lt

/-- The words and the gaps make up the length of the program. -/
theorem Assembler.length_of_text : emitted.program.context.length =
    emitted.file.text.length + Reading.skipped assembler (Lines.read text).lines := by
  obtain ⟨exported, emits⟩ := assembler.emit_emits success
  obtain ⟨running, closed⟩ := assembler.parse_running text emits.running
  obtain ⟨reported, context, _⟩ := emits.context
  have words := congrArg List.length (emits.text_locations.trans closed.addresses)
  rw [List.length_map] at words
  have same : emitted.program.context.length = (assembler.parse text).program.context.length := by
    rw [context]
    rfl
  rw [same, closed.length, words]
  cases sources : (Lines.read text).lines with
  | nil =>
    rw [sources] at started
    cases started
  | cons source more =>
    rw [sources] at started running
    exact Reading.length_eq started running

end Source

/-- If the first line begins the program, the layout holds after it and after every later line, and
the location counter never goes back. No two text records share a location, and the length of the
program is the number of its words and of those that RESET lines skipped. -/
theorem Assembler.layout_of_source (assembler : Assembler) (text : Bytes)
    (started :
      (Reading.ofLines assembler ((Lines.read text).lines.take 1)).context.started = true) :
    (∀ k, 1 ≤ k → (Reading.ofLines assembler ((Lines.read text).lines.take k)).Layout) ∧
      (∀ j k, 1 ≤ j → j ≤ k →
        (Reading.ofLines assembler ((Lines.read text).lines.take j)).context.location ≤
          (Reading.ofLines assembler ((Lines.read text).lines.take k)).context.location) ∧
      ∀ date emitted, assembler.emit (assembler.parse text).program date = .ok emitted →
        (emitted.file.text.map (·.location)).Nodup ∧
          emitted.program.context.length = emitted.file.text.length +
            Reading.skipped assembler (Lines.read text).lines := by
  refine ⟨?_, ?_, ?_⟩
  · exact fun k first => (Reading.layout_of_started started first (Nat.le_refl k)).1
  · exact fun j k first later => (Reading.layout_of_started started first later).2
  · exact fun date emitted success =>
      ⟨Assembler.text_distinct started success, Assembler.length_of_text started success⟩

/-- A source that skips from its load address to a later word. -/
def gapSource : Bytes := ascii "PROG START 8\nGAP RESET 20\nLAST DAT X=1F\n END PROG"

theorem Assembler.layout_of_gapSource :
    (Reading.ofLines {} ((Lines.read gapSource).lines.take 1)).context.started = true ∧
      (Reading.ofLines {} ((Lines.read gapSource).lines.take 3)).Layout ∧
      ∃ emitted, Assembler.emit {} (Assembler.parse {} gapSource).program Date.first = .ok emitted ∧
        emitted.program.context.length = emitted.file.text.length + 12 := by
  have started : (Reading.ofLines {}
      ((Lines.read gapSource).lines.take 1)).context.started = true := by decide +kernel
  have skipped : Reading.skipped {} (Lines.read gapSource).lines = 12 := by decide +kernel
  have emits : (Assembler.emit {} (Assembler.parse {} gapSource).program
      Date.first).toOption.isSome = true := by decide +kernel
  obtain ⟨layout, _, emission⟩ := Assembler.layout_of_source {} gapSource started
  refine ⟨started, layout 3 (by decide), ?_⟩
  cases success : Assembler.emit {} (Assembler.parse {} gapSource).program Date.first with
  | error fault =>
    rw [success] at emits
    cases emits
  | ok emitted =>
    refine ⟨emitted, rfl, ?_⟩
    rw [(emission Date.first emitted success).2, skipped]

end WordAssembler
