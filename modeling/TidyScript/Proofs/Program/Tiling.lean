import TidyScript.Proofs.Program.Seat
import TidyScript.Proofs.Text.Answer

/-!
# Statements tile the tokens

The statements at the top of a program leave out no token and share none, and neither do the
statements of a block, its two braces apart. That none is left out comes from reading: a statement
runs from the token in front of which it is read to the token read last. That none is shared comes
from the order: of two statements that stand one behind the other, only one can hold a token.
-/

namespace TidyScript

/-- The statements stand one behind the other, and each of the tokens lies in exactly one. -/
structure Tiles (tokens : List Token) (body : List (Stmt Mark)) : Prop where
  inOrder : body.Pairwise fun a b => a.span.stop ≤ b.span.start
  once : ∀ token ∈ tokens, body.countP (fun x => x.span.contains token.span) = 1

/-- Of statements one behind the other, only one holds what one of them holds. -/
theorem countP_contains {body : List (Stmt Mark)}
    (inOrder : body.Pairwise fun a b => a.span.stop ≤ b.span.start) {span : Span}
    (written : span.start < span.stop) (covered : ∃ x ∈ body, x.span.contains span = true) :
    body.countP (fun x => x.span.contains span) = 1 := by
  obtain ⟨x, mem, holds⟩ := covered
  obtain ⟨front, back, rfl⟩ := List.append_of_mem mem
  obtain ⟨_, behind, across⟩ := List.pairwise_append.1 inOrder
  have within := Span.contains_iff.1 holds
  have early : front.countP (fun y => y.span.contains span) = 0 := by
    refine List.countP_eq_zero.2 fun y memY => ?_
    have := across y memY x (by simp)
    rw [Span.contains_iff]
    omega
  have late : back.countP (fun y => y.span.contains span) = 0 := by
    refine List.countP_eq_zero.2 fun y memY => ?_
    have := (List.pairwise_cons.1 behind).1 y memY
    rw [Span.contains_iff]
    omega
  rw [List.countP_append, List.countP_cons, early, late, if_pos holds]

/-- Statements that leave out none of the tokens tile them. -/
theorem Tiles.of_covered {tokens : List Token} {body : List (Stmt Mark)}
    (inOrder : body.Pairwise fun a b => a.span.stop ≤ b.span.start)
    (written : ∀ token ∈ tokens, token.span.start < token.span.stop)
    (covered : ∀ token ∈ tokens, ∃ x ∈ body, x.span.contains token.span = true) :
    Tiles tokens body :=
  ⟨inOrder, fun token mem => countP_contains inOrder (written token mem) (covered token mem)⟩

/-! ## The tokens of a block -/

namespace Node

variable {tokens : List Token} {census : Census} {body : List (Stmt Mark)} {low high : Nat}

/-- Statements that are laid out stand between the two offsets. -/
theorem Laid.stmt_inside (laid : Laid tokens census true low (body.map .stmt) high) :
    ∀ x ∈ body, low ≤ x.span.start ∧ x.span.stop ≤ high := by
  intro x mem
  have memNode : .stmt x ∈ body.map Node.stmt := List.mem_map_of_mem mem
  obtain ⟨lower, upper⟩ := laid.spread.inside _ memNode
  obtain ⟨start, stop⟩ := (laid.placed _ memNode).seated.around
  exact ⟨Nat.le_trans lower start, Nat.le_trans stop upper⟩

/-- Statements that are laid out stand one behind the other. -/
theorem Laid.stmt_inOrder (laid : Laid tokens census true low (body.map .stmt) high) :
    body.Pairwise fun a b => a.span.stop ≤ b.span.start := by
  refine (List.pairwise_map.1 (laid.spread.inOrder rfl)).imp_of_mem fun {a b} memA memB le => ?_
  have first := (laid.placed _ (List.mem_map_of_mem memA)).seated.around.2
  have second := (laid.placed _ (List.mem_map_of_mem memB)).seated.around.1
  exact Nat.le_trans first (Nat.le_trans le second)

/-- The tokens of a block are its two braces and those between them, each part of a statement. -/
theorem Framed.exists_between {span : Span} (framed : Framed tokens span body)
    (ordered : tokens.Pairwise fun a b => a.span.stop ≤ b.span.start)
    (written : ∀ token ∈ tokens, token.span.start < token.span.stop) :
    ∃ opening inner closing,
      tokens.filter (fun token => span.contains token.span) = opening :: (inner ++ [closing]) ∧
        opening.isPunct "\x7b" = true ∧ closing.isPunct "\x7d" = true ∧
        opening.span.stop = span.start + 1 ∧ closing.span.start = span.stop - 1 ∧
        (∀ token ∈ inner, token.span.start < token.span.stop) ∧
        ∀ token ∈ inner, ∃ x ∈ body, x.span.contains token.span = true := by
  obtain ⟨opening, memOpen, isOpen, openStart, openStop⟩ := framed.braced.start
  obtain ⟨closing, memClose, isClose, closeStop, closeStart⟩ := framed.braced.stop
  have apart := framed.braced.apart
  obtain ⟨front, rest, rfl⟩ := List.append_of_mem memOpen
  obtain ⟨_, behind, across⟩ := List.pairwise_append.1 ordered
  have memRest : closing ∈ rest := by
    rcases List.mem_append.1 memClose with early | late
    · have := across closing early opening (by simp)
      omega
    · refine (List.mem_cons.1 late).resolve_left fun same => ?_
      rw [same] at closeStart
      omega
  obtain ⟨inner, back, rfl⟩ := List.append_of_mem memRest
  obtain ⟨afterOpen, behind⟩ := List.pairwise_cons.1 behind
  have beforeClose := (List.pairwise_append.1 behind).2.2
  have parts : front ++ opening :: (inner ++ closing :: back) =
      front ++ (opening :: (inner ++ [closing]) ++ back) := by simp
  have tail : (opening :: (inner ++ [closing])).getLast? = some closing :=
    List.getLast?_concat (l := opening :: inner)
  have found := filter_contains (parts ▸ ordered) (parts ▸ written) rfl tail openStart closeStop
  refine ⟨opening, inner, closing, parts ▸ found, isOpen, isClose, openStop, by omega,
    fun token mem => written token (by simp [mem]), ?_⟩
  intro token mem
  refine framed.covered token (by simp [mem]) ?_ ?_
  · exact openStop ▸ afterOpen token (by simp [mem])
  · have := beforeClose token mem closing (by simp)
    omega

end Node

/-! ## The whole row -/

/-- Reading to the end leaves out no token. -/
theorem Grammar.exists_contains_of_readProgram {row : TokenRow} (lined : row.Lined)
    {body : List (Stmt Mark)} {state : State} (run : readProgram (.ofRow row) = .ok body state) :
    ∀ token ∈ row.tokens, ∃ x ∈ body, x.span.contains token.span = true := by
  have stands := State.stands_ofRow lined
  have stands' := (readProgram_reads row stands run).1
  obtain ⟨_, _, got, run⟩ := bind_eq_ok.1 run
  obtain ⟨_, _, got', given⟩ := bind_eq_ok.1 got
  obtain ⟨rfl, rfl⟩ := get_eq_ok.1 got'
  obtain ⟨rfl, rfl⟩ := pure_eq_ok.1 given
  have sound := Productions.sound_upTo row ((State.ofRow row).rest.length + 1)
  obtain ⟨before, asked⟩ := exists_stop_of_manyUpTo run
  obtain ⟨isEnd, rfl⟩ := atEnd_eq_ok.1 asked
  have empty : before.rest = [] := by
    apply Classical.byContradiction
    intro live
    exact lined.live _ (stands'.mem_current live) (of_decide_eq_true isEnd)
  intro token mem
  refine exists_contains_of_manyUpTo (fun _ _ _ asked => (atEnd_eq_ok.1 asked).2) sound.spans
    stands run token mem (Nat.zero_le _) ?_
  rw [State.here, stands'.current_of_nil empty]
  exact lined.closed token mem

namespace Program

/-- **Statements tile the tokens.** The statements at the top stand one behind the other, and every
token lies in exactly one of them. The tokens of a block are an opening brace, a closing one and
those between them; its statements stand there, one behind the other, and each of the tokens between
the braces lies in exactly one. -/
theorem tiles_of_parse {source : String} {program : Program} (read : parse source = .ok program) :
    Tiles program.tokens.toList program.body ∧
      ∀ mark body, Stmt.block mark body ∈ program.stmts → ∃ opening inner closing,
        program.tokens.toList.filter (fun token => mark.span.contains token.span) =
            opening :: (inner ++ [closing]) ∧
          opening.isPunct "\x7b" = true ∧ closing.isPunct "\x7d" = true ∧ Tiles inner body ∧
          ∀ x ∈ body, opening.span.stop ≤ x.span.start ∧ x.span.stop ≤ closing.span.start := by
  have seated := (seated_of_parse read).2
  obtain ⟨row, body, state, tokens, run, rfl⟩ := exists_run_of_parse read
  have lined := TokenRow.lined_of_ofString (exists_row_of_readTokens tokens)
  refine ⟨?_, fun mark body mem => ?_⟩
  · obtain ⟨_, _, laid⟩ := seated.body
    exact .of_covered laid.stmt_inOrder lined.written
      (Grammar.exists_contains_of_readProgram lined run)
  · have placed := seated.stmts _ mem
    have framed : Node.Framed _ mark.span body := placed.seated.shaped
    have laid : Node.Laid row.tokens _ true _ (body.map .stmt) _ := ⟨framed.spread, placed.child⟩
    obtain ⟨opening, inner, closing, parts, isOpen, isClose, openStop, closeStart, written,
      covered⟩ := framed.exists_between lined.ordered lined.written
    refine ⟨opening, inner, closing, parts, isOpen, isClose,
      .of_covered laid.stmt_inOrder written covered, fun x memX => ?_⟩
    rw [openStop, closeStart]
    exact laid.stmt_inside x memX

/-- A semicolon on the next line, a `do` without one, a class and an export around a block. -/
theorem tiles_of_parse_mixed :
    ∃ program mark body,
      parse "a\n;do b;while(c)\x7bd\n;\x7b\x7dclass e\x7bf()\x7b\x7d;\x7dg\x7dexport\x7bh\x7d" =
          .ok program ∧
        Stmt.block mark body ∈ program.stmts ∧ program.body.length = 4 ∧ body.length = 4 ∧
        Tiles program.tokens.toList program.body ∧ ∃ opening inner closing,
          program.tokens.toList.filter (fun token => mark.span.contains token.span) =
              opening :: (inner ++ [closing]) ∧ Tiles inner body := by
  have checked : Option.any (fun program =>
      program.body.length = 4 && program.stmts.toList.any fun x =>
        x.isBlock && x.statements.length = 4)
      (parse "a\n;do b;while(c)\x7bd\n;\x7b\x7dclass e\x7bf()\x7b\x7d;\x7dg\x7dexport\x7bh\x7d"
        ).toOption = true := by decide +kernel
  obtain ⟨program, read, checked⟩ := exists_ok_of_any checked
  obtain ⟨size, checked⟩ := Bool.and_eq_true_iff.1 checked
  obtain ⟨x, mem, checked⟩ := List.any_eq_true.1 checked
  obtain ⟨isBlock, count⟩ := Bool.and_eq_true_iff.1 checked
  cases x with
  | block mark body =>
    have mem : Stmt.block mark body ∈ program.stmts := by simpa using mem
    obtain ⟨tiles, blocks⟩ := tiles_of_parse read
    obtain ⟨opening, inner, closing, parts, _, _, inside, _⟩ := blocks mark body mem
    exact ⟨program, mark, body, read, mem, of_decide_eq_true size, of_decide_eq_true count, tiles,
      opening, inner, closing, parts, inside⟩
  | _ => cases isBlock

end Program

end TidyScript
