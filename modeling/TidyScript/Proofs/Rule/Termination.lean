import TidyScript.Proofs.Rule.Rounds

/-!
# Rounds on expressions come to an end

With both rules on expressions, every fix takes at least one off the weight of the expression, and
no expression weighs nothing. So a run that is given as many rounds as the expression weighs ends
with nothing left to report. A sentence stays readable on the way as long as it is airy: no `in` or
`instanceof` touches a closing parenthesis in front of it, and `await` is not used as a name.

Without that condition a round can be undone for good. Where a negation in parentheses touches the
word behind it, moving the negation inward takes the parenthesis away, and the words run together.
-/

namespace TidyScript

open Grammar

/-! ## Airy programs -/

/-- Do the operators `in` and `instanceof` stand apart from closing parentheses in front of them,
and is no name `await`? -/
def Program.isAiry (program : Program) : Bool :=
  program.tokens.toList.all fun token =>
    !token.isIdentifier "await" &&
      (!(token.isKeyword "in" || token.isKeyword "instanceof") ||
        program.tokens.toList.all fun other =>
          !(other.isPunct ")" && other.span.stop = token.span.start))

namespace Piece

/-- Pieces whose tokens stand apart are apart. -/
theorem isChain_apart_of_tokens {offset : Nat} {ps : List Piece}
    (free : ∀ a ∈ tokens offset ps, ∀ b ∈ tokens offset ps, a.isPunct ")" = true →
      (b.isKeyword "in" || b.isKeyword "instanceof") = true → a.span.stop ≠ b.span.start) :
    List.IsChain Apart ps := by
  induction ps generalizing offset with
  | nil => exact .nil
  | cons p ps ih =>
    have others : List.IsChain Apart ps := ih fun a memA b memB =>
      free a (List.mem_cons_of_mem _ memA) b (List.mem_cons_of_mem _ memB)
    cases ps with
    | nil => exact .singleton p
    | cons q ps =>
      refine List.isChain_cons_cons.2 ⟨fun closed word none => ?_, others⟩
      refine free (p.token offset) (.head _) (q.token (offset + p.bytes)) (.tail _ (.head _)) closed
        word ?_
      simp [token, none]

theorem exists_mem_tokens (offset : Nat) {ps : List Piece} {p : Piece} (mem : p ∈ ps) :
    ∃ place, p.token place ∈ tokens offset ps := by
  induction ps generalizing offset with
  | nil => cases mem
  | cons q ps ih =>
    rcases List.mem_cons.1 mem with rfl | mem
    · exact ⟨offset, .head _⟩
    · obtain ⟨place, here⟩ := ih (offset + q.bytes) mem
      exact ⟨place, .tail _ here⟩

end Piece

namespace Sentence

variable {s s' : Sentence} {program : Program}

theorem airy_of_isAiry (isRead : s.IsRead program) (airy : program.isAiry = true) :
    s.phrase.Airy := by
  simp only [Program.isAiry, isRead.tokens, List.all_eq_true, Bool.and_eq_true, Bool.not_eq_true',
    Bool.or_eq_true] at airy
  have row : Piece.Airy s.pieces := by
    refine ⟨@Piece.isChain_apart_of_tokens 0 _ fun a memA b memB closed word touches => ?_, ?_⟩
    · rcases (airy b memB).2 with other | apart
      · rw [word] at other
        cases other
      · have free := apart a memA
        simp [closed, touches] at free
    · intro p mem
      obtain ⟨offset, memToken⟩ := Piece.exists_mem_tokens 0 mem
      exact (airy _ memToken).1
  refine ⟨row.apart.left_of_append, fun p mem => row.names p ?_⟩
  exact List.mem_append_left _ mem

/-! ## The run -/

/-- Sentences with the same source weigh the same. -/
theorem weight_eq_of_source (sound : s.Sound) (sound' : s'.Sound) (same : s'.source = s.source) :
    s'.phrase.weight = s.phrase.weight := by
  obtain ⟨program, read, isRead⟩ := sound.parse
  obtain ⟨program', read', isRead'⟩ := sound'.parse
  obtain rfl : program' = program := by
    rw [same, read] at read'
    exact (Except.ok.inj read').symm
  obtain ⟨_, body, _⟩ := isRead.body
  obtain ⟨_, body', _⟩ := isRead'.body
  have nodes : s.node = s'.node := by
    rw [body] at body'
    exact (Stmt.expression.inj (List.cons.inj body').1).2
  rw [← Phrase.weight_node s'.phrase 0 0, ← Phrase.weight_node s.phrase 0 0]
  exact congrArg Expr.weight nodes.symm

/-- **With as many rounds as the sentence weighs, nothing is left to report.** -/
theorem exists_exhausted (left : Nat) (sound : s.Sound) (isRead : s.IsRead program)
    (airy : s.phrase.Airy) (enough : s.phrase.weight ≤ left) (passes applied : Nat) :
    ∃ repair, Repair.continueFrom (.onlyLogic true) left program passes applied = .ok repair ∧
      (repair.remaining = [] ∧ repair.undone = none) ∧
        repair.passes < passes + s.phrase.weight ∧ repair.applied < applied + s.phrase.weight := by
  induction left generalizing s program passes applied with
  | zero =>
    have := s.phrase.one_le_weight
    omega
  | succ left ih =>
    obtain ⟨reports, listed, reported, φ, made, sound', amended⟩ :=
      exists_round sound isRead fun _ => airy
    obtain ⟨next, read, isRead'⟩ := sound'.parse
    rw [continueFrom_succ listed made read]
    have positive := s.phrase.one_le_weight
    cases reports with
    | nil =>
      rw [if_pos (by simp [Repair.fixes, Fix.accepted, Fix.takeFrom])]
      exact ⟨_, rfl, ⟨rfl, rfl⟩, Nat.lt_add_of_pos_right positive, Nat.lt_add_of_pos_right positive⟩
    | cons report others =>
      have some : Repair.fixes (report :: others) ≠ [] := by
        obtain ⟨_, _, edit, fix, _⟩ := reported report (.head _)
        simp [Repair.fixes, fix]
      have taken := Fix.accepted_pos some
      have light := amended.weight
      have moved : (⟨φ, s.ending, s.final⟩ : Sentence).source ≠ program.source := by
        intro same
        have := weight_eq_of_source sound sound' (same.trans isRead.source)
        have : φ.weight = s.phrase.weight := this
        omega
      rw [if_neg (by simp [moved, Nat.ne_of_gt taken])]
      obtain ⟨repair, done, rests, few, fewer⟩ := ih sound' isRead' (amended.neat.airy airy)
        (show φ.weight ≤ left by omega) (passes + 1) _
      refine ⟨repair, done, rests, ?_, ?_⟩
      · have few : repair.passes < passes + 1 + φ.weight := few
        omega
      · have fewer : repair.applied < applied + _ + φ.weight := fewer
        omega

end Sentence

/-- **Rounds on expressions come to an end.** A source that is a single statement of a plain
expression, in which words stand apart, is fixed until the rules on negations and on logical
expressions have nothing left to report. It takes fewer rounds than the expression weighs, and
fewer fixes, so giving the run more rounds changes nothing. -/
theorem Repair.remaining_onlyLogic {source : String} {program : Program} {mark : Mark}
    {e : Expr Mark} (read : Program.parse source = .ok program)
    (body : program.body = [.expression mark e]) (plain : e.isPlain = true)
    (airy : program.isAiry = true) {rounds : Nat} (enough : e.weight ≤ rounds) :
    ∃ repair, Repair.ofSource ⟨.onlyLogic true, rounds⟩ source = .ok repair ∧
      (repair.remaining = [] ∧ repair.undone = none) ∧
        repair.passes < e.weight ∧ repair.applied < e.weight := by
  obtain ⟨s, sound, rfl, isRead⟩ := Sentence.of_parse read body plain
  obtain rfl := isRead.node_eq body
  have weight : s.node.weight = s.phrase.weight := Phrase.weight_node s.phrase 0 0
  rw [weight] at enough ⊢
  obtain ⟨repair, done, rests, few, fewer⟩ := Sentence.exists_exhausted rounds sound isRead
    (Sentence.airy_of_isAiry isRead airy) enough 0 0
  rw [Nat.zero_add] at few fewer
  refine ⟨repair, ?_, rests, few, fewer⟩
  rw [Repair.ofSource, read]
  exact congrArg (Except.mapError RepairError.fault) done

/-- Negations of a comparison in front of a word and of a connective, and conditionals to fold. -/
theorem Repair.remaining_onlyLogic_nested :
    ∃ (program : Program) (mark : Mark) (e : Expr Mark),
      Program.parse "!(!(a < b) in c && !p) || (q ? x : null) || (!q ? y : null)" = .ok program ∧
        program.body = [.expression mark e] ∧ e.isPlain = true ∧ program.isAiry = true ∧
          e.weight ≤ 200 ∧
            ∃ repair, Repair.ofSource ⟨.onlyLogic true, 200⟩
                "!(!(a < b) in c && !p) || (q ? x : null) || (!q ? y : null)" = .ok repair ∧
              (repair.remaining = [] ∧ repair.undone = none) ∧
                repair.passes < e.weight ∧ repair.applied < e.weight := by
  have checked : (Program.parse
      "!(!(a < b) in c && !p) || (q ? x : null) || (!q ? y : null)").toOption.any (fun program =>
        program.isAiry && program.soleExpression?.any fun e =>
          e.isPlain && decide (e.weight ≤ 200)) = true := by decide +kernel
  obtain ⟨program, read, checked⟩ := exists_ok_of_any checked
  obtain ⟨airy, checked⟩ := Bool.and_eq_true_iff.1 checked
  obtain ⟨e, sole, checked⟩ := (Option.any_eq_true ..).1 checked
  obtain ⟨plain, enough⟩ := Bool.and_eq_true_iff.1 checked
  obtain ⟨mark, body⟩ := Program.soleExpression?_eq_some.1 sole
  have enough := of_decide_eq_true enough
  exact ⟨program, mark, e, read, body, plain, airy, enough,
    remaining_onlyLogic read body plain airy enough⟩

/-- Where a word touches the parenthesis in front of it, no number of rounds is enough: the text
`a >= bin c` of the first round cannot be read, and the report stays. -/
theorem Repair.remaining_onlyLogic_touching :
    (∃ (program : Program) (mark : Mark) (e : Expr Mark),
      Program.parse "!(a<b)in c" = .ok program ∧ program.body = [.expression mark e] ∧
        e.isPlain = true) ∧
      ∀ rounds, ∃ repair, Repair.ofSource ⟨.onlyLogic true, rounds⟩ "!(a<b)in c" = .ok repair ∧
        repair.remaining ≠ [] ∧ repair.passes = 0 := by
  have checked : (Program.parse "!(a<b)in c").toOption.any (fun program =>
      program.soleExpression?.any Expr.isPlain &&
        (program.lint (.onlyLogic true)).toOption.any fun reports => !reports.isEmpty &&
          (Fix.applyAll program.source (Repair.fixes reports)).toOption.any fun made =>
            !(made.2 = 0 || made.1 = program.source) &&
              (Program.parse made.1).toOption.isNone) = true := by decide +kernel
  obtain ⟨program, read, checked⟩ := exists_ok_of_any checked
  obtain ⟨shape, checked⟩ := Bool.and_eq_true_iff.1 checked
  obtain ⟨e, sole, plain⟩ := (Option.any_eq_true ..).1 shape
  obtain ⟨mark, body⟩ := Program.soleExpression?_eq_some.1 sole
  refine ⟨⟨program, mark, e, read, body, plain⟩, fun rounds => ?_⟩
  obtain ⟨reports, listed, checked⟩ := exists_ok_of_any checked
  obtain ⟨remains, checked⟩ := Bool.and_eq_true_iff.1 checked
  obtain ⟨made, isMade, checked⟩ := exists_ok_of_any checked
  obtain ⟨moves, unread⟩ := Bool.and_eq_true_iff.1 checked
  rw [Bool.not_eq_true'] at moves
  have run : ∃ undone, Repair.continueFrom (.onlyLogic true) rounds program 0 0 =
      .ok ⟨program.source, 0, 0, reports, undone⟩ := by
    cases rounds with
    | zero => exact ⟨none, by rw [Repair.continueFrom, listed]; rfl⟩
    | succ left =>
      cases parsed : Program.parse made.1 with
      | ok next =>
        rw [parsed] at unread
        cases unread
      | error error =>
        refine ⟨some ⟨error, 1⟩, ?_⟩
        rw [Repair.continueFrom, listed]
        simp only [bind, Except.bind, isMade, parsed, moves]
        rfl
  obtain ⟨undone, run⟩ := run
  refine ⟨⟨program.source, 0, 0, reports, undone⟩, ?_, by simpa using remains, rfl⟩
  rw [Repair.ofSource, read]
  exact congrArg (Except.mapError RepairError.fault) run

end TidyScript
