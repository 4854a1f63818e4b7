import Brainfuck.Proofs.Composition
import Brainfuck.Proofs.Decimals
import Brainfuck.Proofs.Lines

/-!
# Listings

A listing shows of every instruction its index, its symbol and its name, and for a jump the target.
It has one line for each instruction, and all that matters to a run can be read from it: two codes
with one listing have the same operations and the same targets of jumps. The symbols of a listing
are a source of the code, in which every loop is closed.

## Main Definitions

* `Instruction.row` — a line of a listing without its end
* `symbolColumn` — the symbols that are read from a listing

## Main Results

* `signed_injective` — an integer is known by its digits and sign
* `linesOf_listing` — the lines of a listing
* `Instruction.row_inj` — what a line tells about its instruction
* `listing_eq_iff` — what a listing tells about its code
* `symbolColumn_listing`, `Program.exists_compile_symbols` — the symbols of a listing as a source
* `listing_loses_nothing` — all of this

## Design Notes

Equal listings have equal lines, and lines of the same number begin with the same digits, however
many these are. So the width of an index never has to be known.
-/

namespace Brainfuck

/-! ## Integers -/

theorem decimal_injective : Function.Injective decimal := by
  intro m n h
  rw [← ofDecimal_decimal m, h, ofDecimal_decimal]

/-- A sign is no digit. -/
theorem decimal_ne_minus (m n : Nat) : decimal m ≠ 0x2D :: decimal n := by
  intro h
  have hdigit : isDigit 0x2D = true := by
    apply isDigit_of_mem_decimal (n := m)
    rw [h]
    exact List.mem_cons_self
  exact absurd hdigit (by decide)

theorem signed_injective : Function.Injective signed := by
  intro i j h
  cases i with
  | ofNat m =>
      cases j with
      | ofNat n => rw [decimal_injective h]
      | negSucc n => exact absurd h (decimal_ne_minus m (n + 1))
  | negSucc m =>
      cases j with
      | ofNat n => exact absurd h.symm (decimal_ne_minus n (m + 1))
      | negSucc n => rw [Nat.succ.inj (decimal_injective (List.cons.inj h).2)]

/-! ## Texts without line feeds -/

theorem lineFeed_not_mem_of_digits {t : Bytes} (h : ∀ b ∈ t, isDigit b = true) : 0x0A ∉ t :=
  fun hmem => absurd (h _ hmem) (by decide)

theorem lineFeed_not_mem_signed (i : Int) : 0x0A ∉ signed i := by
  cases i with
  | ofNat n => exact lineFeed_not_mem_of_digits isDigit_of_mem_decimal
  | negSucc n =>
      rw [signed, List.mem_cons, not_or]
      exact ⟨by decide, lineFeed_not_mem_of_digits isDigit_of_mem_decimal⟩

theorem lineFeed_not_mem_padRight {t : Bytes} (h : 0x0A ∉ t) (width : Nat) :
    0x0A ∉ padRight width t := by
  rw [padRight, List.mem_append, not_or]
  exact ⟨h, by simp [List.mem_replicate]⟩

theorem lineFeed_not_mem_operationName (op : Option Command) :
    0x0A ∉ text (operationName op) := by
  cases op with
  | none => decide
  | some c => cases c <;> decide

/-! ## One instruction -/

namespace Instruction

variable {x y : Instruction}

/-- The line of a listing for the instruction at an index, without its end. -/
def row (index : Nat) (x : Instruction) : Bytes :=
  paddedDecimal 4 index ++ (text "  " ++ x.symbol :: (text "  " ++ x.toText))

theorem listingLine_eq_row (index : Nat) (x : Instruction) :
    x.listingLine index = x.row index ++ [0x0A] := by
  simp [listingLine, row]

/-- The symbol tells the operation. -/
theorem ofByte?_symbol (x : Instruction) : Command.ofByte? x.symbol = x.op := by
  unfold symbol
  cases x.op with
  | none => rfl
  | some c => exact Command.ofByte?_symbol c

theorem isJump_iff (x : Instruction) :
    x.isJump = true ↔ x.op = some .loopStart ∨ x.op = some .loopEnd := by
  unfold isJump
  cases x.op with
  | none => simp
  | some c => cases c <;> simp [Command.isJump]

/-- A line tells the operation of its instruction and, for a jump, the target. -/
theorem row_inj {index : Nat} :
    x.row index = y.row index ↔ x.op = y.op ∧ (x.isJump = true → x.target = y.target) := by
  constructor
  · intro h
    obtain ⟨hsymbol, hrest⟩ := List.cons.inj
      (List.append_cancel_left (List.append_cancel_left h))
    have htext : x.toText = y.toText := List.append_cancel_left hrest
    have hop : x.op = y.op := by
      rw [← ofByte?_symbol x, hsymbol, ofByte?_symbol]
    refine ⟨hop, fun hjump => ?_⟩
    have hname : y.name = x.name := by rw [name, name, hop]
    have hjump' : y.isJump = true := by rw [isJump, ← hop, ← isJump, hjump]
    rw [toText, toText, if_pos hjump, if_pos hjump', hname] at htext
    exact signed_injective (List.append_cancel_left htext)
  · rintro ⟨hop, htarget⟩
    have hjump : y.isJump = x.isJump := by rw [isJump, isJump, hop]
    have htext : x.toText = y.toText := by
      unfold toText name
      rw [hjump, hop]
      split
      next h => rw [htarget h]
      next => rfl
    rw [row, row, htext, symbol, symbol, hop]

/-! ### Lines without line feeds -/

theorem lineFeed_not_mem_name (x : Instruction) : 0x0A ∉ x.name :=
  lineFeed_not_mem_operationName x.op

theorem lineFeed_not_mem_toText (x : Instruction) : 0x0A ∉ x.toText := by
  unfold toText
  split
  · simp only [List.mem_append, not_or]
    exact ⟨⟨lineFeed_not_mem_padRight x.lineFeed_not_mem_name _, by decide⟩,
      lineFeed_not_mem_signed _⟩
  · exact x.lineFeed_not_mem_name

theorem lineFeed_ne_symbol (x : Instruction) : 0x0A ≠ x.symbol := by
  unfold symbol
  cases x.op with
  | none => decide
  | some c => exact c.ascii_symbol.2.symm

theorem lineFeed_not_mem_row (index : Nat) (x : Instruction) : 0x0A ∉ x.row index := by
  simp only [row, List.mem_append, List.mem_cons, not_or]
  exact ⟨lineFeed_not_mem_of_digits isDigit_of_mem_paddedDecimal, by decide, x.lineFeed_ne_symbol,
    by decide, x.lineFeed_not_mem_toText⟩

/-- The symbol stands two spaces behind the index. -/
theorem head?_row (index : Nat) (x : Instruction) :
    (((x.row index ++ [0x0A]).dropWhile isDigit).drop 2).head? = some x.symbol := by
  rw [row, List.append_assoc, List.dropWhile_append_of_pos isDigit_of_mem_paddedDecimal]
  rfl

end Instruction

/-! ## Whole listings -/

/-- The lines of a listing without their ends. -/
def rows (code : Code) : List Bytes :=
  code.toList.zipIdx.map fun (x, index) => x.row index

theorem listing_eq_flatMap (code : Code) : listing code = (rows code).flatMap (· ++ [0x0A]) := by
  simp only [listing, rows, List.flatMap_map, Instruction.listingLine_eq_row]

theorem length_rows (code : Code) : (rows code).length = code.size := by
  simp [rows]

theorem lineFeed_not_mem_of_mem_rows {code : Code} : ∀ l ∈ rows code, 0x0A ∉ l := by
  intro l hl
  obtain ⟨⟨x, index⟩, -, rfl⟩ := List.mem_map.mp hl
  exact x.lineFeed_not_mem_row index

theorem linesOf_listing (code : Code) :
    linesOf (listing code) = (rows code).map (· ++ [0x0A]) := by
  rw [listing_eq_flatMap, linesOf_flatMap lineFeed_not_mem_of_mem_rows]

theorem rows_getElem? (code : Code) (k : Nat) :
    (rows code)[k]? = code[k]?.map (Instruction.row k) := by
  rw [rows, List.getElem?_map, List.getElem?_zipIdx, Option.map_map, Nat.zero_add,
    Array.getElem?_toList]
  rfl

/-- What a listing tells about its code. -/
theorem listing_eq_iff {code code' : Code} :
    listing code = listing code' ↔ code.size = code'.size ∧
      ∀ (k : Nat) (x y : Instruction), code[k]? = some x → code'[k]? = some y →
        x.op = y.op ∧ (x.isJump = true → x.target = y.target) := by
  constructor
  · intro h
    have hlines : (rows code).map (· ++ [0x0A]) = (rows code').map (· ++ [0x0A]) := by
      rw [← linesOf_listing, h, linesOf_listing]
    have hrows : rows code = rows code' :=
      (List.map_inj_right fun _ _ => List.append_cancel_right).mp hlines
    refine ⟨by rw [← length_rows, hrows, length_rows], ?_⟩
    intro k x y hx hy
    have hrow := congrArg (·[k]?) hrows
    simp only [rows_getElem?, hx, hy, Option.map_some, Option.some.injEq] at hrow
    exact Instruction.row_inj.mp hrow
  · rintro ⟨hsize, hsame⟩
    rw [listing_eq_flatMap, listing_eq_flatMap]
    congr 1
    ext1 k
    rw [rows_getElem?, rows_getElem?]
    by_cases hk : k < code.size
    · have hx := Array.getElem?_eq_getElem hk
      have hy := Array.getElem?_eq_getElem (hsize ▸ hk)
      rw [hx, hy]
      exact congrArg some (Instruction.row_inj.mpr (hsame k _ _ hx hy))
    · rw [Array.getElem?_eq_none (Nat.not_lt.mp hk),
        Array.getElem?_eq_none (hsize ▸ Nat.not_lt.mp hk)]

/-! ## The symbols of a listing -/

/-- The symbols that are read from a listing: in every line the byte two places behind the index. -/
def symbolColumn (t : Bytes) : Bytes :=
  (linesOf t).filterMap fun l => ((l.dropWhile isDigit).drop 2).head?

theorem symbolColumn_listing (code : Code) :
    symbolColumn (listing code) = code.toList.map Instruction.symbol := by
  rw [symbolColumn, linesOf_listing, rows, List.map_map, List.filterMap_map]
  have hsymbol : ((fun l : Bytes => ((l.dropWhile isDigit).drop 2).head?) ∘ (· ++ [0x0A]) ∘
      fun (x, index) => Instruction.row index x) = some ∘ Instruction.symbol ∘ Prod.fst := by
    funext ⟨x, index⟩
    simp only [Function.comp_apply, x.head?_row index]
  rw [hsymbol, List.filterMap_eq_map, ← List.map_map, List.zipIdx_map_fst]

namespace Program

variable {settings : CompileSettings} {source : Feed} {disk disk' : Disk} {p : Program}

/-- The symbols of compiled code are the closed commands of its source. -/
theorem commands_symbols (h : compile settings source disk = (.ok p, disk')) :
    (commands (p.code.toList.map Instruction.symbol)).map Prod.fst =
      (closed (commands source.bytes)).map Prod.fst := by
  obtain ⟨d, hrun, -, hcode⟩ := exists_draft_of_compile h
  have hops : p.code.toList.map Instruction.op =
      ((closed (commands source.bytes)).map Prod.fst).map some := by
    calc p.code.toList.map Instruction.op
        = (Draft.listed p.code).map Prod.fst := by
          rw [Draft.listed, Array.toList_map, List.map_map]
          rfl
      _ = ((closed (commands source.bytes)).map Prod.fst).map some := by
          rw [hcode, Draft.run_listed hrun]
          simp [Draft.listed, Draft.empty, Function.comp_def]
  calc (commands (p.code.toList.map Instruction.symbol)).map Prod.fst
      = p.code.toList.filterMap Instruction.op := by
        rw [map_fst_commands, List.filterMap_map]
        exact congrArg (List.filterMap · _) (funext Instruction.ofByte?_symbol)
    _ = (p.code.toList.map Instruction.op).filterMap id := by
        rw [List.filterMap_map]
        rfl
    _ = (closed (commands source.bytes)).map Prod.fst := by
        rw [hops, List.filterMap_map]
        exact List.filterMap_some

/-- The symbols of compiled code are a source in which all loops are closed, and its code has the
same operations and targets. -/
theorem exists_compile_symbols (h : compile settings source disk = (.ok p, disk')) (disk₂ : Disk) :
    ∃ q, compile { strict := true } { bytes := p.code.toList.map Instruction.symbol } disk₂ =
        (.ok q, disk₂) ∧ q.code.size = p.code.size ∧
      ∀ (k : Nat) (x y : Instruction), p.code[k]? = some x → q.code[k]? = some y →
        y.op = x.op ∧ y.target = x.target := by
  have hcommands := commands_symbols h
  obtain ⟨d, hrun, hnil, -⟩ := exists_draft_of_compile h
  have hdepth : depth ((closed (commands source.bytes)).map Prod.fst) = 0 := by
    have hlength := Draft.run_guards_length hrun
    simp only [hnil, Draft.empty, List.length_nil] at hlength
    omega
  obtain ⟨q, hq⟩ := (exists_compile_iff true (p.code.toList.map Instruction.symbol) disk₂).mpr
    ⟨by rw [hcommands]; exact Draft.neverClosed_of_run hrun, fun _ => by rw [hcommands, hdepth]⟩
  have hlay := laidOut_of_compile hq
  simp only [hcommands, map_closed, Tree.ofCommands_append_closers] at hlay
  exact ⟨q, hq, (laidOut_of_compile h).same hlay⟩

end Program

/-- **A listing loses nothing that can be executed.** Two codes have the same listing if and only if
they have as many instructions, with the same operations and, for the guards and exits of loops, the
same targets. A listing has one line for each instruction, ended by a line feed. The symbols of the
listing of a compiled program compile with strict brackets, to a program with the same listing. -/
theorem listing_loses_nothing :
    (∀ code code' : Code, listing code = listing code' ↔ code.size = code'.size ∧
      ∀ (k : Nat) (x y : Instruction), code[k]? = some x → code'[k]? = some y →
        x.op = y.op ∧ (x.op = some .loopStart ∨ x.op = some .loopEnd → x.target = y.target)) ∧
    (∀ code : Code, ∃ ls : List Bytes, listing code = ls.flatMap (· ++ [0x0A]) ∧
      ls.length = code.size ∧ ∀ l ∈ ls, 0x0A ∉ l) ∧
    ∀ (settings : CompileSettings) (source : Feed) (disk disk' : Disk) (p : Program),
      Program.compile settings source disk = (.ok p, disk') → ∀ disk₂, ∃ q,
        Program.compile { strict := true } { bytes := symbolColumn (listing p.code) } disk₂ =
          (.ok q, disk₂) ∧ listing q.code = listing p.code := by
  refine ⟨?_, ?_, ?_⟩
  · intro code code'
    simp only [← Instruction.isJump_iff]
    exact listing_eq_iff
  · intro code
    exact ⟨rows code, listing_eq_flatMap code, length_rows code, lineFeed_not_mem_of_mem_rows⟩
  · intro settings source disk disk' p h disk₂
    obtain ⟨q, hq, hsize, hsame⟩ := Program.exists_compile_symbols h disk₂
    refine ⟨q, by rw [symbolColumn_listing, hq], listing_eq_iff.mpr ⟨hsize, ?_⟩⟩
    intro k y x hy hx
    obtain ⟨hop, htarget⟩ := hsame k x y hx hy
    exact ⟨hop, fun _ => htarget⟩

/-- A loop that the source leaves open is closed in the listing, and so in the symbols. -/
theorem listing_loses_nothing_of_open_loop :
    ∃ p q, Program.compile {} { bytes := text "a[b+" } {} = (.ok p, {}) ∧
      listing p.code = text
        "0000  [  LoopStart    -> 3\n0001  +  IncCell\n0002  ]  LoopEnd      -> 0\n" ∧
      Program.compile { strict := true } { bytes := text "[+]" } {} = (.ok q, {}) ∧
      listing q.code = listing p.code := by
  obtain ⟨p, hp, hlisting⟩ : ∃ p, Program.compile {} { bytes := text "a[b+" } {} = (.ok p, {}) ∧
      listing p.code = text
        "0000  [  LoopStart    -> 3\n0001  +  IncCell\n0002  ]  LoopEnd      -> 0\n" :=
    ⟨_, rfl, by decide⟩
  obtain ⟨-, -, hrecompile⟩ := listing_loses_nothing
  obtain ⟨q, hq, hsame⟩ := hrecompile {} _ {} {} p hp {}
  have hsymbols : symbolColumn (listing p.code) = text "[+]" := by
    rw [hlisting]
    decide
  rw [hsymbols] at hq
  exact ⟨p, q, hp, hlisting, hq, hsame⟩

end Brainfuck
