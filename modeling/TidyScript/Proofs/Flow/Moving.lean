import TidyScript.Proofs.Edit.Independence
import TidyScript.Proofs.Flow.Ending
import TidyScript.Proofs.Program.Extract
import TidyScript.Proofs.Program.Forest
import TidyScript.Proofs.Token.Indentation

/-!
# Moved statements keep their tokens

The text that is inserted for moved statements is their own text behind other white space, with
perhaps a semicolon in front of it or the braces of a new `finally` around it. Where it is indented
anew, the white space between its tokens changes as well, and so do the tokens that hold lines of
text: a template whose lines begin with the old indentation is not the same afterwards. Apart from
these, the inserted text is read as the tokens of the statements.

Around it, the source is kept to the letter. Whether the whole can be read is another matter: a
statement that ended at a brace may run into the next one.
-/

namespace TidyScript

open Lexical (isSpace)
open Text (reindent)

/-- Of the edits of the fix, only one puts a text in place, and it is this text. -/
def Fix.Inserts (fix : Fix) (text : String) : Prop :=
  (fix.edits.map Edit.replacement).filter (· ≠ "") = [text]

/-- The second text is the first without a semicolon at its front, or the first itself. -/
inductive Unseparated : String → String → Prop where
  | whole (text : String) : Unseparated text text
  | semicolon {space text : List Char} (blank : ∀ c ∈ space, isSpace c = true) :
      Unseparated (String.ofList (space ++ ';' :: text)) (String.ofList text)

namespace Program

variable {program : Program} {moved : List (Stmt Mark)} {span : Span} {p : Piece}
  {ps qs : List Piece}

/-- Read alone, the text has the tokens of the statements. -/
def ReadsAs (program : Program) (moved : List (Stmt Mark)) (text : String) : Prop :=
  ∃ row, TokenRow.ofString text = .ok row ∧ Token.sameRow row.tokens (program.rowOf moved) = true

/-- The indentation stays, or no line inside a token of the statements begins with the old one. -/
def Steady (program : Program) (moved : List (Stmt Mark)) (old new : String) : Prop :=
  old ≠ new → ∀ token ∈ program.rowOf moved, Text.holdsStill old.toList token.text.toList = true

/-! ## Texts in other white space -/

theorem isIndent_indentAt (program : Program) (offset : Nat) :
    ∀ c ∈ (program.indentAt offset).toList, Text.isIndent c = true := by
  intro c mem
  rw [indentAt, Text.indentAt, String.toList_ofList] at mem
  exact List.mem_takeWhile_imp mem

theorem isSpace_blank : ∀ c ∈ " ".toList, isSpace c = true :=
  List.forall_mem_singleton.2 rfl

/-- A new line with an indentation is white space. -/
theorem isSpace_newLine (program : Program) (offset : Nat) :
    ∀ c ∈ ("\n" ++ program.indentAt offset).toList, isSpace c = true := by
  intro c mem
  rw [String.toList_append, List.mem_append] at mem
  rcases mem with feed | mem
  · obtain rfl : c = '\n' := by simpa using feed
    decide
  · exact Text.isSpace_of_isIndent (program.isIndent_indentAt offset c mem)

theorem exists_separated (program : Program) (previous : Stmt Mark) (text : List Char) :
    ∃ front, (front = [] ∨ front = [';']) ∧
      program.separated previous (String.ofList text) = String.ofList (front ++ text) := by
  unfold separated
  split
  · exact ⟨[';'], .inr rfl, by simp⟩
  · exact ⟨[], .inl rfl, rfl⟩

namespace Extract

variable (extract : program.Extract moved span p ps)
include extract

/-- Between other white space, the pieces still have the tokens of the statements. -/
theorem readsAs (respaces : List.Forall₂ Piece.Respaces ps qs) {front behind : List Char}
    (space : ∀ c ∈ front, isSpace c = true) (spaceBehind : ∀ c ∈ behind, isSpace c = true) :
    program.ReadsAs moved
      (String.ofList (front ++ (p.text ++ qs.flatMap Piece.chars) ++ behind)) := by
  have fits : Piece.Fits true (⟨[], p.kind, p.text⟩ :: (ps ++ [])) [] := by
    rw [List.append_nil]
    exact extract.fits
  have own : Piece.Fits true (⟨front, p.kind, p.text⟩ :: qs) behind :=
    fits.respace rfl rfl (Token.exists_gap_of_space space) respaces spaceBehind fun _ => rfl
  obtain ⟨place, rows⟩ := extract.tokens
  refine ⟨_, (congrArg TokenRow.ofString ?_).trans (TokenRow.ofString_of_fits own), ?_⟩
  · simp [Piece.render, Piece.chars]
  · rw [rows]
    exact @Piece.sameRow_respace p ⟨front, p.kind, p.text⟩ ps qs rfl rfl respaces 0 place

theorem exists_unseparated (respaces : List.Forall₂ Piece.Respaces ps qs)
    {space front : List Char} (blank : ∀ c ∈ space, isSpace c = true)
    (separated : front = [] ∨ front = [';']) :
    ∃ text, Unseparated (String.ofList (space ++ (front ++ (p.text ++ qs.flatMap Piece.chars))))
      text ∧ program.ReadsAs moved text := by
  rcases separated with rfl | rfl
  · refine ⟨_, .whole _, ?_⟩
    simpa using extract.readsAs respaces blank (List.forall_mem_nil _)
  · refine ⟨_, .semicolon blank, ?_⟩
    simpa using extract.readsAs respaces (List.forall_mem_nil _) (List.forall_mem_nil _)

theorem holdsStill {indent : List Char}
    (still : ∀ token ∈ program.rowOf moved, Text.holdsStill indent token.text.toList = true) :
    ∀ q ∈ p :: ps, Text.holdsStill indent q.text = true := by
  intro q mem
  obtain ⟨place, rows⟩ := extract.tokens
  obtain ⟨front, behind, parts⟩ := List.append_of_mem mem
  rw [rows, parts, Piece.tokens_append, Piece.tokens_cons] at still
  simpa [Piece.token] using
    still (q.token (place + Piece.width front)) (List.mem_append_right _ (List.mem_cons_self ..))

/-- Statements that are put behind another one, on its line. -/
theorem exists_text_behind (previous : Stmt Mark) :
    ∃ text, Unseparated (" " ++ program.separated previous
        (String.ofList (p.text ++ ps.flatMap Piece.chars))) text ∧ program.ReadsAs moved text := by
  obtain ⟨front, separated, is⟩ :=
    program.exists_separated previous (p.text ++ ps.flatMap Piece.chars)
  rw [is]
  simpa using extract.exists_unseparated (List.forall₂_same.2 fun q _ => .refl q) isSpace_blank
    separated

/-- Statements that are put behind another one, on new lines. -/
theorem exists_text_below (previous : Stmt Mark) (clean : program.hasCommentsIn span = false)
    {a b : Nat} (steady : program.Steady moved (program.indentAt a) (program.indentAt b)) :
    ∃ text, Unseparated ("\n" ++ program.indentAt b ++ reindent (program.separated previous
        (String.ofList (p.text ++ ps.flatMap Piece.chars))) (program.indentAt a)
          (program.indentAt b)) text ∧ program.ReadsAs moved text := by
  obtain ⟨front, separated, is⟩ :=
    program.exists_separated previous (p.text ++ ps.flatMap Piece.chars)
  obtain ⟨qs, respaces, same⟩ := Piece.exists_respaces_reindent (program.isIndent_indentAt a)
    (program.isIndent_indentAt b) extract.fits.stands (extract.space clean) separated fun other =>
      List.forall_mem_cons.2 (List.forall_mem_cons.1 (extract.holdsStill (steady other)))
  rw [is, same]
  simpa [String.append_assoc] using
    extract.exists_unseparated respaces (program.isSpace_newLine b) separated

/-- Statements that come to stand alone, with white space on both sides. -/
theorem readsAs_between (lead trail : String) (space : ∀ c ∈ lead.toList, isSpace c = true)
    (spaceBehind : ∀ c ∈ trail.toList, isSpace c = true) :
    program.ReadsAs moved
      (lead ++ String.ofList (p.text ++ ps.flatMap Piece.chars) ++ trail) := by
  simpa [String.append_assoc] using
    extract.readsAs (List.forall₂_same.2 fun q _ => .refl q) space spaceBehind

end Extract

/-! ## Inserted texts -/

section Insertions

variable {whole consequent first last finalizer handler ending : Stmt Mark} {edit : Edit}

theorem exists_text_of_unwrapped
    (extract : program.Extract moved ⟨first.span.start, last.span.stop⟩ p ps)
    (clean : program.hasCommentsIn ⟨first.span.start, last.span.stop⟩ = false) {inserted : String}
    (run : program.unwrapped whole consequent first last = .ok inserted)
    (steady : program.Steady moved (program.indentAt first.span.start)
      (program.indentAt whole.span.start)) :
    inserted ≠ "" ∧ ∃ text, Unseparated inserted text ∧ program.ReadsAs moved text := by
  obtain ⟨own, is, run⟩ := exists_of_bind_eq_ok run
  obtain rfl := Except.ok.inj (extract.text.symm.trans is)
  dsimp only at run
  split at run
  · cases run
    exact ⟨by simp, extract.exists_text_behind consequent⟩
  · cases run
    exact ⟨by simp, extract.exists_text_below consequent clean steady⟩

theorem exists_text_of_appendTo (extract : program.Extract [ending] ending.span p ps)
    (clean : program.hasCommentsIn ending.span = false)
    (steady : ∀ last ∈ finalizer.statements.getLast?,
      program.sameLine last.span.start finalizer.span.stop = false →
        program.Steady [ending] (program.indentAt ending.span.start)
          (program.indentAt last.span.start))
    (run : program.appendTo finalizer ending = .ok edit) :
    edit.replacement ≠ "" ∧
      ∃ text, Unseparated edit.replacement text ∧ program.ReadsAs [ending] text := by
  obtain ⟨own, is, run⟩ := exists_of_bind_eq_ok run
  obtain rfl := Except.ok.inj (extract.text.symm.trans is)
  dsimp only at run
  split at run
  · next last isLast =>
    split at run
    · cases run
      exact ⟨by simp [Edit.insert], extract.exists_text_behind last⟩
    · next apart =>
      cases run
      rw [Bool.not_eq_true] at apart
      exact ⟨by simp [Edit.insert], extract.exists_text_below last clean (steady last isLast apart)⟩
  · split at run
    · cases run
      refine ⟨by simp [Edit.insert], _, .whole _, ?_⟩
      exact extract.readsAs_between " " " " isSpace_blank isSpace_blank
    · cases run
      refine ⟨by simp [Edit.insert], _, .whole _, ?_⟩
      have alone := extract.readsAs_between _ "" (program.isSpace_newLine ending.span.start)
        (by simp)
      rwa [String.append_empty] at alone

theorem exists_text_of_newFinalizer (extract : program.Extract [ending] ending.span p ps)
    (run : program.newFinalizer whole handler ending = .ok edit) :
    ∃ text, edit.replacement = " finally \x7b" ++ text ++ "\x7d" ∧
      program.ReadsAs [ending] text := by
  obtain ⟨own, is, run⟩ := exists_of_bind_eq_ok run
  obtain rfl := Except.ok.inj (extract.text.symm.trans is)
  obtain ⟨wholeText, -, run⟩ := exists_of_bind_eq_ok run
  dsimp only at run
  split at run
  · cases run
    refine ⟨_, ?_, extract.readsAs_between _ _ (program.isSpace_newLine ending.span.start)
      (program.isSpace_newLine whole.span.start)⟩
    rw [← String.toList_inj]
    simp [Edit.insert]
  · cases run
    refine ⟨_, ?_, extract.readsAs_between " " " " isSpace_blank isSpace_blank⟩
    rw [← String.toList_inj]
    simp [Edit.insert]

end Insertions

/-! ## Statements that are moved -/

theorem hasCommentsIn_mono {inner outer : Span} (clean : program.hasCommentsIn outer = false)
    (starts : outer.start ≤ inner.start) (stops : inner.stop ≤ outer.stop) :
    program.hasCommentsIn inner = false := by
  simp only [hasCommentsIn, List.any_eq_false, Span.contains_iff] at clean ⊢
  intro comment mem inside
  exact clean comment mem (by omega)

section Places

variable {source : String} {mark : Mark} {test : Expr Mark}
  {consequent alternate body block first last ending : Stmt Mark} {handler : Handler Mark}
  {finalizer : Option (Stmt Mark)}

theorem occurs_of_mem_stmts {x : Stmt Mark} {list : List (Stmt Mark)} (mem : x ∈ program.stmts)
    (inside : list ∈ x.lists) : program.Occurs list := by
  refine occurs_of_mem_lists (List.mem_cons_of_mem _ (List.mem_append_left _ ?_))
  exact List.mem_flatMap.2 ⟨x, Array.mem_toList_iff.2 mem, inside⟩

/-- The statements under an `else` stand one behind the other in the program. -/
theorem occurs_alternate (read : parse source = .ok program)
    (mem : .branch mark test consequent (some alternate) ∈ program.stmts) :
    program.Occurs alternate.statements := by
  have memAlternate : alternate ∈ program.stmts :=
    mem_stmts_of_child read mem (by simp [Stmt.children, Stmt.stmtNodes])
  have alone : program.Occurs [alternate] := occurs_of_mem_stmts mem (by simp [Stmt.lists])
  cases alternate with
  | block own list => exact occurs_of_mem_stmts memAlternate (by simp [Stmt.lists, Stmt.statements])
  | _ => exact alone

/-- The last statement of a block stands in the program. -/
theorem occurs_ending (mem : block ∈ program.stmts) (isBlock : block.isBlock = true)
    (isLast : block.statements.getLast? = some ending) : program.Occurs [ending] := by
  cases block with
  | block own list =>
    obtain ⟨front, parts⟩ := List.getLast?_eq_some_iff.1 isLast
    have whole : program.Occurs (front ++ [ending]) :=
      parts ▸ occurs_of_mem_stmts mem (List.mem_singleton_self _)
    obtain ⟨found, memFound, part⟩ := whole
    exact ⟨found, memFound, (List.suffix_append front [ending]).isInfix.trans part⟩
  | _ => cases isBlock

theorem span_of_mem_statements (held : program.Holds (.stmt block))
    (mem : ending ∈ block.statements) :
    block.span.start ≤ ending.span.start ∧ ending.span.stop ≤ block.span.stop := by
  cases block with
  | block own list =>
    obtain ⟨lower, upper⟩ := held.seated.spread.inside (.stmt ending) (List.mem_map_of_mem mem)
    obtain ⟨start, stop⟩ := (Seated.lined_statements held).2 ending mem |>.seated.around
    exact ⟨Nat.le_trans lower start, Nat.le_trans stop upper⟩
  | _ =>
    obtain rfl := List.mem_singleton.1 mem
    exact ⟨Nat.le_refl _, Nat.le_refl _⟩

/-- What is removed from a block holds its last statement. -/
theorem span_of_endingRemoval (held : program.Holds (.stmt block)) (isBlock : block.isBlock = true)
    (isLast : block.statements.getLast? = some ending) :
    (endingRemoval block ending).start ≤ ending.span.start ∧
      ending.span.stop ≤ (endingRemoval block ending).stop := by
  have lined := Seated.lined_statements held
  obtain ⟨front, parts⟩ := List.getLast?_eq_some_iff.1 isLast
  unfold endingRemoval
  split
  · next previous found =>
    rw [parts] at lined found
    have mem : previous ∈ front := by simpa using List.mem_of_find?_eq_some found
    exact ⟨lined.stop_le_last mem, Nat.le_refl _⟩
  · cases block with
    | block own list =>
      have mem : ending ∈ list := List.mem_of_getLast? isLast
      have framed : Node.Framed _ own.span list := held.seated.shaped
      obtain ⟨lower, upper⟩ := framed.spread.inside (.stmt ending) (List.mem_map_of_mem mem)
      obtain ⟨start, stop⟩ := (lined.2 ending mem).seated.around
      exact ⟨Nat.le_trans lower start, Nat.le_trans stop upper⟩
    | _ => cases isBlock

end Places

/-! ## The fixes -/

/-- One text takes the place of an `else` and what is under it. Without a semicolon in front, it is
read as the tokens of the statements there. -/
structure Unwraps (program : Program) (mark : Mark) (consequent alternate : Stmt Mark)
    (inserted : String) (fix : Fix) : Prop where
  eq : fix = .single ⟨⟨consequent.span.stop, alternate.span.stop⟩, inserted⟩
  empty : alternate.statements = [] → inserted = ""
  moved : ∀ first ∈ alternate.statements.head?,
    program.Steady alternate.statements (program.indentAt first.span.start)
      (program.indentAt mark.span.start) →
    inserted ≠ "" ∧ ∃ text, Unseparated inserted text ∧ program.ReadsAs alternate.statements text

/-- The ending of a `try` is taken out of both blocks, and one text is put into the `finally`. Without
a semicolon in front or new braces around it, this is read as the tokens of the ending. -/
structure Hoists (program : Program) (body : Stmt Mark) (handler : Handler Mark)
    (finalizer : Option (Stmt Mark)) (ending : CommonEnding) (insertion : Edit) (fix : Fix) :
    Prop where
  edits : fix.edits = [.remove (endingRemoval body ending.ofBlock),
    .remove (endingRemoval handler.body ending.ofHandler), insertion]
  place : finalizer.elim (insertion.span = ⟨handler.body.span.stop, handler.body.span.stop⟩)
    (Seated.Ends · insertion)
  moved : (∀ block ∈ finalizer, ∀ last ∈ block.statements.getLast?,
      program.sameLine last.span.start block.span.stop = false →
        program.Steady [ending.ofBlock] (program.indentAt ending.ofBlock.span.start)
          (program.indentAt last.span.start)) →
    insertion.replacement ≠ "" ∧ ∃ text,
      (finalizer.isSome = true → Unseparated insertion.replacement text) ∧
      (finalizer = none → insertion.replacement = " finally \x7b" ++ text ++ "\x7d") ∧
      program.ReadsAs [ending.ofBlock] text

section Fixes

variable {source : String} {s : Stmt Mark} {ending : CommonEnding} {fix : Fix}
  (read : parse source = .ok program) (mem : s ∈ program.stmts)
include read mem

theorem exists_unwraps (run : program.unwrapElse? s = .ok (some fix)) :
    ∃ mark test consequent alternate inserted, s = .branch mark test consequent (some alternate) ∧
      program.Unwraps mark consequent alternate inserted fix := by
  unfold unwrapElse? at run
  split at run
  · next mark test consequent alternate =>
    refine ⟨mark, test, consequent, alternate, ?_⟩
    have held := (seated_of_parse read).2.stmts _ mem
    obtain ⟨-, heldAlternate, before⟩ := Seated.parts_of_branch held
    dsimp only at run
    split at run
    · cases run
    · next free =>
      simp only [Bool.or_eq_true, not_or, Bool.not_eq_true] at free
      split at run
      · next first last isFirst isLast =>
        obtain ⟨inserted, is, run⟩ := exists_of_bind_eq_ok run
        cases run
        refine ⟨inserted, rfl, rfl, fun empty => by simp [empty] at isFirst, ?_⟩
        intro first' isFirst' steady
        obtain rfl := Option.some.inj (isFirst.symm.trans isFirst')
        obtain ⟨p, ps, extract⟩ := exists_extract read (occurs_alternate read mem) isFirst isLast
        have lower := (span_of_mem_statements heldAlternate (List.mem_of_head? isFirst)).1
        have upper := (span_of_mem_statements heldAlternate (List.mem_of_getLast? isLast)).2
        have clean : program.hasCommentsIn ⟨first.span.start, last.span.stop⟩ = false :=
          hasCommentsIn_mono free.1.2 (Nat.le_trans before lower) upper
        exact exists_text_of_unwrapped extract clean is steady
      · next none =>
        cases run
        refine ⟨"", rfl, rfl, fun _ => rfl, fun first isFirst => ?_⟩
        obtain ⟨last, isLast⟩ : ∃ last, alternate.statements.getLast? = some last :=
          Option.isSome_iff_exists.1 (by simp [List.ne_nil_of_mem (List.mem_of_head? isFirst)])
        exact absurd isLast (none first last isFirst)
  · cases run

theorem exists_hoists (found : program.commonEnding? s = some ending)
    (run : program.hoistEnding? s ending = .ok (some fix)) :
    fix.Fits source ∧ ∃ mark body handler finalizer insertion,
      s = .attempt mark body (some handler) finalizer ∧
        program.Hoists body handler finalizer ending insertion fix := by
  obtain ⟨rfl, seated⟩ := seated_of_parse read
  have held := seated.stmts _ mem
  obtain ⟨edits, fits⟩ := (seated.gives_hoistEnding? held found).holds run fix rfl
  obtain ⟨mark, body, handler, finalizer, rfl, isLast, -⟩ := Seated.commonEnding?_eq_some found
  obtain ⟨insertion, is, edits⟩ := exists_of_bind_eq_ok edits
  obtain ⟨⟨heldBody, isBlock⟩, ⟨heldHandler, -⟩, last⟩ := Seated.parts_of_attempt held
  have heldEnding := (Seated.lined_statements heldBody).2 _ (List.mem_of_getLast? isLast)
  refine ⟨fits, mark, body, handler, finalizer, insertion, rfl, (Except.ok.inj edits).symm, ?_,
    fun steady => ?_⟩
  · cases finalizer with
    | none => exact ((seated.gives_newFinalizer held heldHandler heldEnding).holds is).2
    | some block =>
      obtain ⟨heldLast, blockLast, -⟩ := last block rfl
      exact ((seated.gives_appendTo heldLast blockLast heldEnding).holds is).2
  have memBody : body ∈ program.stmts := mem_stmts_of_child read mem (by simp [Stmt.children])
  obtain ⟨p, ps, extract⟩ := exists_extract read (occurs_ending memBody isBlock isLast) rfl rfl
  cases finalizer with
  | none =>
    obtain ⟨text, whole, reads⟩ := exists_text_of_newFinalizer extract is
    exact ⟨by simp [whole], text, by simp, fun _ => whole, reads⟩
  | some block =>
    have free := (seated.exists_hoistEnding?_iff mem found).1 ⟨fix, run⟩
    obtain ⟨lower, upper⟩ := span_of_endingRemoval heldBody isBlock isLast
    have clean := hasCommentsIn_mono free.2.1 lower upper
    obtain ⟨some, text, unseparated, reads⟩ :=
      exists_text_of_appendTo extract clean (steady block rfl) is
    exact ⟨some, text, fun _ => unseparated, by simp, reads⟩

end Fixes

/-- **Moved statements keep their tokens.** When the statements under an `else` are moved, or the
common ending of a `try`, the fix inserts one text. Without a semicolon in front of it, or without
the braces of a new `finally` around it, this text is read as the tokens of the statements that were
moved, if these hold no line that begins with the old indentation where another takes its place. -/
theorem inserted_readsAs_moved {source : String} (read : parse source = .ok program) :
    (∀ mark test consequent alternate first fix,
      .branch mark test consequent (some alternate) ∈ program.stmts →
      program.unwrapElse? (.branch mark test consequent (some alternate)) = .ok (some fix) →
      alternate.statements.head? = some first →
      program.Steady alternate.statements (program.indentAt first.span.start)
        (program.indentAt mark.span.start) →
      ∃ inserted text, fix.Inserts inserted ∧ Unseparated inserted text ∧
        program.ReadsAs alternate.statements text) ∧
    ∀ mark body handler finalizer ending fix,
      .attempt mark body (some handler) finalizer ∈ program.stmts →
      program.commonEnding? (.attempt mark body (some handler) finalizer) = some ending →
      program.hoistEnding? (.attempt mark body (some handler) finalizer) ending = .ok (some fix) →
      (∀ block ∈ finalizer, ∀ last ∈ block.statements.getLast?,
        program.sameLine last.span.start block.span.stop = false →
          program.Steady [ending.ofBlock] (program.indentAt ending.ofBlock.span.start)
            (program.indentAt last.span.start)) →
      ∃ inserted text, fix.Inserts inserted ∧
        (finalizer.isSome = true → Unseparated inserted text) ∧
        (finalizer = none → inserted = " finally \x7b" ++ text ++ "\x7d") ∧
        program.ReadsAs [ending.ofBlock] text := by
  constructor
  · intro mark test consequent alternate first fix mem run isFirst steady
    obtain ⟨_, _, _, _, inserted, ⟨⟩, rfl, -, moved⟩ := exists_unwraps read mem run
    obtain ⟨some, text, reads⟩ := moved first isFirst steady
    exact ⟨inserted, text, by simp [Fix.Inserts, Fix.single, some], reads⟩
  · intro mark body handler finalizer ending fix mem found run steady
    obtain ⟨-, _, _, _, _, _, ⟨⟩, edits, -, moved⟩ := exists_hoists read mem found run
    obtain ⟨some, text, reads⟩ := moved steady
    exact ⟨_, text, by simp [Fix.Inserts, edits, Edit.remove, some], reads⟩

end Program

/-- What stands under the `else` of an `if`. -/
def Stmt.alternate? {α : Type} : Stmt α → Option (Stmt α)
  | .branch _ _ _ alternate => alternate
  | _ => none

theorem Stmt.exists_branch_of_alternate? {s alternate : Stmt Mark}
    (under : s.alternate? = some alternate) :
    ∃ mark test consequent, s = .branch mark test consequent (some alternate) := by
  unfold alternate? at under
  split at under
  · exact ⟨_, _, _, congrArg _ under⟩
  · cases under

namespace Program

/-- Both texts are indented anew, get a semicolon in front and hold a template of two lines. -/
theorem inserted_readsAs_moved_templates :
    ∃ program, parse ("if(a)return b\nelse\x7b\n  (c)\n  \x60d\n e\x60\x7d\n" ++
        "try\x7b\n  \x60g\n h\x60\x7dcatch\x7b\x60g\n h\x60\x7dfinally\x7bi\n\x7d") = .ok program ∧
      (∃ mark test consequent alternate fix,
        program.unwrapElse? (.branch mark test consequent (some alternate)) = .ok (some fix) ∧
          ∃ inserted text, fix.Inserts inserted ∧ Unseparated inserted text ∧
            program.ReadsAs alternate.statements text) ∧
      ∃ mark body handler block ending fix,
        program.hoistEnding? (.attempt mark body (some handler) (some block)) ending =
            .ok (some fix) ∧
          ∃ inserted text, fix.Inserts inserted ∧ Unseparated inserted text ∧
            program.ReadsAs [ending.ofBlock] text := by
  have checked : (parse ("if(a)return b\nelse\x7b\n  (c)\n  \x60d\n e\x60\x7d\n" ++
      "try\x7b\n  \x60g\n h\x60\x7dcatch\x7b\x60g\n h\x60\x7dfinally\x7bi\n\x7d")).toOption.any
      (fun program =>
        (program.stmts.toList.any fun s => s.alternate?.any fun alternate =>
          (program.unwrapElse? s).toOption.any Option.isSome &&
            alternate.statements.head?.any fun first =>
              (program.rowOf alternate.statements).all fun token =>
                Text.holdsStill (program.indentAt first.span.start).toList token.text.toList) &&
        program.stmts.toList.any fun s => (program.commonEnding? s).any fun ending =>
          s.finalizer?.isSome && program.movesEnding ending s &&
            (program.rowOf [ending.ofBlock]).all fun token => Text.holdsStill
              (program.indentAt ending.ofBlock.span.start).toList token.text.toList) = true := by
    decide +kernel
  obtain ⟨program, read, checked⟩ := exists_ok_of_any checked
  obtain ⟨moves, hoists⟩ := inserted_readsAs_moved read
  obtain ⟨checked, checked'⟩ := Bool.and_eq_true_iff.1 checked
  refine ⟨program, read, ?_, ?_⟩
  · obtain ⟨s, mem, checked⟩ := List.any_eq_true.1 checked
    obtain ⟨alternate, under, checked⟩ := (Option.any_eq_true ..).1 checked
    obtain ⟨mark, test, consequent, rfl⟩ := Stmt.exists_branch_of_alternate? under
    obtain ⟨fixed, checked⟩ := Bool.and_eq_true_iff.1 checked
    obtain ⟨found, run, some⟩ := exists_ok_of_any fixed
    obtain ⟨fix, rfl⟩ := Option.isSome_iff_exists.1 some
    obtain ⟨first, isFirst, still⟩ := (Option.any_eq_true ..).1 checked
    exact ⟨_, _, _, _, fix, run, moves _ _ _ _ _ fix (Array.mem_toList_iff.1 mem) run isFirst
      fun _ => List.all_eq_true.1 still⟩
  · obtain ⟨s, mem, checked'⟩ := List.any_eq_true.1 checked'
    obtain ⟨ending, found, checked'⟩ := (Option.any_eq_true ..).1 checked'
    obtain ⟨mark, body, handler, finalizer, rfl, -⟩ := Seated.commonEnding?_eq_some found
    simp only [Stmt.finalizer?, Bool.and_eq_true, Option.isSome_iff_exists] at checked'
    obtain ⟨⟨⟨block, rfl⟩, free⟩, still⟩ := checked'
    have mem := Array.mem_toList_iff.1 mem
    obtain ⟨fix, run⟩ :=
      (seated_of_parse read).2.exists_hoistEnding?_of_movesEnding mem found free
    obtain ⟨inserted, text, inserts, unseparated, -, reads⟩ := hoists _ _ _ _ ending fix mem found
      run fun _ _ _ _ _ _ => List.all_eq_true.1 still
    exact ⟨_, _, _, _, ending, fix, run, inserted, text, inserts, unseparated rfl, reads⟩

/-- A template under an `else` whose second line begins with the old indentation is changed. -/
theorem unwrapElse?_changes_template :
    ∃ program mark test consequent alternate fix,
      parse "\x7b\n  if(a)return b;\n  else\n    c(\x60x\n    y\x60)\n\x7d" = .ok program ∧
        .branch mark test consequent (some alternate) ∈ program.stmts.toList ∧
          program.unwrapElse? (.branch mark test consequent (some alternate)) = .ok (some fix) ∧
            ∀ inserted text, fix.Inserts inserted → Unseparated inserted text →
              ¬ program.ReadsAs alternate.statements text := by
  have checked : (parse
      "\x7b\n  if(a)return b;\n  else\n    c(\x60x\n    y\x60)\n\x7d").toOption.any
      (fun program => program.stmts.toList.any fun s => s.alternate?.any fun alternate =>
        (program.unwrapElse? s).toOption.any fun found => found.any fun fix =>
          (fix.edits.map Edit.replacement).filter (· ≠ "") = ["\n  c(\x60x\n  y\x60)"] &&
            (TokenRow.ofString "\n  c(\x60x\n  y\x60)").toOption.all fun row =>
              !Token.sameRow row.tokens (program.rowOf alternate.statements)) = true := by
    decide +kernel
  obtain ⟨program, read, checked⟩ := exists_ok_of_any checked
  obtain ⟨s, mem, checked⟩ := List.any_eq_true.1 checked
  obtain ⟨alternate, under, checked⟩ := (Option.any_eq_true ..).1 checked
  obtain ⟨mark, test, consequent, rfl⟩ := Stmt.exists_branch_of_alternate? under
  obtain ⟨_, run, checked⟩ := exists_ok_of_any checked
  obtain ⟨fix, rfl, checked⟩ := (Option.any_eq_true ..).1 checked
  simp only [Option.any_some, Bool.and_eq_true, decide_eq_true_eq] at checked
  obtain ⟨one, other⟩ := checked
  refine ⟨program, _, _, _, _, fix, read, mem, run, ?_⟩
  rintro inserted text inserts unseparated ⟨row, found, same⟩
  obtain rfl := List.singleton_inj.1 (one.symm.trans inserts)
  generalize is : "\n  c(\x60x\n  y\x60)" = inserted at unseparated other
  cases unseparated with
  | whole =>
    rw [found] at other
    simp [Except.toOption, same] at other
  | semicolon =>
    have semicolon : ';' ∈ "\n  c(\x60x\n  y\x60)".toList := by rw [is]; simp
    exact absurd semicolon (by decide)

end Program

end TidyScript
