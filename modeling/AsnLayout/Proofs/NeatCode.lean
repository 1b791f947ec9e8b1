import AsnLayout.Proofs.NeatLines
import AsnLayout.Proofs.ReadItems
import Mathlib.Algebra.Group.Nat.Even

/-!
# Code of neat texts

Outside of its literals a neat text has single spaces, also beside its assignment signs, and no
other blanks.  The literals stay as they are, and so do all characters but the blanks.
-/

set_option autoImplicit false

namespace AsnLayout.Text

/-! ## Spacing of code -/

/-- Code with single spaces between its words and beside its assignment signs. -/
structure IsSpaced (code : Text) : Prop where
  spaces : ∀ c ∈ code, isBlank c = true → c = ' '
  single : ¬[' ', ' '] <:+: code
  /-- A space stands before every assignment sign that does not start the code. -/
  before : ∀ c, c :: assignmentSign <:+: code → c = ' '
  /-- A space stands behind every assignment sign that does not end the code. -/
  behind : ∀ c, assignmentSign ++ [c] <:+: code → c = ' '

theorem IsSpaced.inner {part code : Text} (spaced : IsSpaced code) (inside : part <:+: code) :
    IsSpaced part where
  spaces c member := spaced.spaces c (inside.subset member)
  single twice := spaced.single (twice.trans inside)
  before c sign := spaced.before c (sign.trans inside)
  behind c sign := spaced.behind c (sign.trans inside)

theorem eq_space_of_mem_collapse {c : Char} {t : Text} (member : c ∈ collapse t)
    (blank : isBlank c = true) : c = ' ' := by
  induction t with
  | nil => cases member
  | cons b rest ih =>
    cases first : isBlank b with
    | false =>
      rw [collapse_cons_solid first] at member
      rcases List.mem_cons.mp member with rfl | later
      · rw [first] at blank
        cases blank
      · exact ih later
    | true =>
      rw [collapse_cons_blank first] at member
      split at member
      · exact ih member
      · rcases List.mem_cons.mp member with rfl | later
        · rfl
        · exact ih later

theorem single_collapse (t : Text) : ¬[' ', ' '] <:+: collapse t := by
  induction t with
  | nil => simp [collapse]
  | cons b rest ih =>
    cases first : isBlank b with
    | false =>
      have solid : ' ' ≠ b := ne_of_isBlank (by decide) first
      rw [collapse_cons_solid first, List.infix_cons_iff, List.cons_prefix_cons]
      exact fun twice => twice.elim (fun start => solid start.1) ih
    | true =>
      rw [collapse_cons_blank first]
      split
      · exact ih
      · rename_i other
        rw [List.infix_cons_iff, List.cons_prefix_cons]
        rintro (⟨-, tail, start⟩ | later)
        · exact other (by rw [← start]; rfl)
        · exact ih later

theorem not_prefix_spaceAssignments (t : Text) : ¬assignmentSign <+: spaceAssignments t := by
  fun_cases spaceAssignments t with
  | case1 => decide
  | case2 rest => simp [assignmentSign]
  | case3 c rest other =>
    rintro ⟨tail, sign⟩
    obtain ⟨colon, later⟩ := List.cons.inj sign
    exact not_sign_spaceAssignments other tail colon.symm later.symm

theorem before_spaceAssignments {c : Char} {t : Text}
    (sign : c :: assignmentSign <:+: spaceAssignments t) : c = ' ' := by
  fun_induction spaceAssignments t with
  | case1 => simp at sign
  | case2 rest ih =>
    have places : c = ' ' ∨ c = ' ' ∧ assignmentSign <+: spaceAssignments rest ∨
        c :: assignmentSign <:+: spaceAssignments rest := by
      simpa [assignmentSign, List.infix_cons_iff] using sign
    rcases places with start | ⟨behind, -⟩ | later
    · exact start
    · exact behind
    · exact ih later
  | case3 d rest other ih =>
    -- A sign that starts behind the character would start the spaced rest.
    rcases List.infix_cons_iff.mp sign with starts | later
    · exact absurd (List.cons_prefix_cons.mp starts).2 (not_prefix_spaceAssignments rest)
    · exact ih later

theorem behind_spaceAssignments {c : Char} {t : Text}
    (sign : assignmentSign ++ [c] <:+: spaceAssignments t) : c = ' ' := by
  fun_induction spaceAssignments t with
  | case1 => simp [assignmentSign] at sign
  | case2 rest ih =>
    have places : c = ' ' ∨ assignmentSign ++ [c] <:+: spaceAssignments rest := by
      simpa [assignmentSign, List.infix_cons_iff] using sign
    exact places.elim id ih
  | case3 d rest other ih =>
    rcases List.infix_cons_iff.mp sign with ⟨tail, starts⟩ | later
    · obtain ⟨colon, behind⟩ := List.cons.inj starts
      exact (not_sign_spaceAssignments other _ colon.symm behind.symm).elim
    · exact ih later

theorem isSpaced_spaced (code : Text) : IsSpaced (spaced code) where
  spaces _ := eq_space_of_mem_collapse
  single := single_collapse _
  -- A blank beside a sign has become a space, and any other character stood there before the blanks
  -- were collapsed, beside the space that was put there.
  before c sign := by
    cases blank : isBlank c with
    | true => exact eq_space_of_mem_collapse (sign.subset (List.mem_cons_self ..)) blank
    | false =>
      have solid : ∀ d ∈ c :: assignmentSign, isBlank d = false :=
        List.forall_mem_cons.mpr ⟨blank, fun _ => isBlank_of_mem_sign⟩
      exact before_spaceAssignments ((reblanked_collapse false _).holds_before solid sign)
  behind c sign := by
    cases blank : isBlank c with
    | true => exact eq_space_of_mem_collapse (sign.subset (by simp)) blank
    | false =>
      have solid : ∀ d ∈ assignmentSign ++ [c], isBlank d = false := by
        rw [List.forall_mem_append]
        exact ⟨fun _ => isBlank_of_mem_sign, List.forall_mem_singleton.mpr blank⟩
      exact behind_spaceAssignments ((reblanked_collapse false _).holds_before solid sign)

theorem isSpaced_neat (t : Text) : IsSpaced (masked (neat t)) :=
  (isSpaced_spaced (masked t)).inner (masked_neat_isInfix t)

theorem isBlank_of_getLast?_trim {c : Char} {t : Text} (last : (trim t).getLast? = some c) :
    isBlank c = false := by
  have filled : trim t ≠ [] := by
    intro empty
    rw [empty] at last
    cases last
  have ends := List.rdropWhile_eq_self_iff.mp (trimEnd_trim t) filled
  rw [List.getLast?_eq_some_getLast filled, Option.some.injEq] at last
  rw [last] at ends
  simpa using ends

/-! ## Literals of neat texts -/

theorem Woven.hidden_mapCode {t held : Text} (woven : Woven t held) :
    hidden (mapCode spaced t) = held := by
  induction woven with
  | code quiet =>
    rw [mapCode_of_quiet quiet, hidden, Quoting.hidden_of_quiet (keepsCode_spaced quiet).quiet]
    rfl
  | literal quiet opens quiet' closes later ih =>
    have kept := keepsCode_spaced quiet
    rw [mapCode_literal quiet opens quiet' closes,
      hidden_literal kept.quiet (kept.escaped.trans opens) quiet' closes, ih]

theorem hidden_trim {t : Text} (closed : (Quoting.after {} t).inside = false) :
    hidden (trim t) = hidden t := by
  obtain ⟨front, back, blank, blank', cut⟩ := exists_blank_trim t
  have noQuote : ∀ {s : Text}, isBlankText s = true → '"' ∉ s :=
    fun isBlank member => nomatch List.all_eq_true.mp isBlank '"' member
  have before := after_of_isBlankText blank
  rw [cut, Quoting.after_append, before, Quoting.after_append,
    Quoting.inside_after (noQuote blank')] at closed
  conv_rhs => rw [cut, hidden, Quoting.hidden_append, before, Quoting.hidden_append,
    Quoting.hidden_of_absent rfl (noQuote blank), Quoting.hidden_of_absent closed (noQuote blank'),
    List.nil_append, List.append_nil]
  rfl

theorem literals_neat {t : Text} (closed : (Quoting.after {} t).inside = false) :
    literals (neat t) = literals t := by
  have woven := woven_of_closed closed
  have closed' := (inside_after_neat t).trans closed
  have same : hidden (neat t) = hidden t := by
    rw [neat_eq, hidden_trim ((inside_after_mapCode t).trans closed), woven.hidden_mapCode]
  -- What is hidden of a closed text is its literals one behind the other, and cuts into them again.
  have told := (woven_of_closed closed').literals_append []
  rw [same, woven.literals_append] at told
  exact (List.append_cancel_right told).symm

/-- How many quotes of a text do not follow a backslash, `escaped` telling whether one stands right
before the text. -/
def quoteCount (escaped : Bool) : Text → Nat
  | [] => 0
  | c :: rest => (if c = '"' ∧ escaped = false then 1 else 0) + quoteCount (c = '\\') rest

/-- An even number of quotes leaves the scan where it was, inside of a literal or outside. -/
theorem even_quoteCount_iff (q : Quoting) (t : Text) :
    Even (quoteCount q.escaped t) ↔ (q.after t).inside = q.inside := by
  induction t generalizing q with
  | nil => simp [quoteCount, Quoting.after]
  | cons c rest ih =>
    have later : Even (quoteCount (c = '\\') rest) ↔
        (q.after (c :: rest)).inside = (q.next c).inside := ih (q.next c)
    rw [quoteCount]
    cases quote : q.isQuote c with
    | false =>
      have other : ¬(c = '"' ∧ q.escaped = false) := by simpa [Quoting.isQuote] using quote
      rw [if_neg other, Nat.zero_add, later, Quoting.inside_next quote]
    | true =>
      have counts : c = '"' ∧ q.escaped = false := by simpa [Quoting.isQuote] using quote
      have toggles : (q.next c).inside = !q.inside := by simp [Quoting.next, quote]
      rw [if_pos counts, Nat.add_comm, Nat.even_add_one, later, toggles]
      cases (q.after (c :: rest)).inside <;> cases q.inside <;> simp

/-! ## Main result -/

/-- A neat text has the characters of the text, blanks apart.  Outside of its literals, which stay
as they are if the text closes them, its only blanks are single spaces, none of them at its ends,
and spaces stand on both sides of its assignment signs. -/
theorem neat_spaces_code (t : Text) :
    (neat t).filter (!isBlank ·) = t.filter (!isBlank ·) ∧
    (Even (quoteCount false t) → literals (neat t) = literals t) ∧
    IsSpaced (masked (neat t)) ∧
    ∀ c, (neat t).head? = some c ∨ (neat t).getLast? = some c → isBlank c = false := by
  refine ⟨?_, fun even => ?_, isSpaced_neat t, ?_⟩
  · obtain ⟨whole, same, trimmed⟩ := reblanked_neat t
    rw [trimmed, filter_solid_trim, same.filter_solid]
  · exact literals_neat ((even_quoteCount_iff {} t).mp even)
  · exact fun c edge => edge.elim isBlank_of_head?_trim isBlank_of_getLast?_trim

/-- Signs that touch literals, one another and the ends of the text, and an escaped quote. -/
theorem neat_spaces_code_between_literals :
    let text : Text := "::=\"a  ::=b\"::=\t,\\\"  \n x::=::=\"\"\"\\\" \"::=".toList
    Even (quoteCount false text) ∧
      literals (neat text) = ["\"a  ::=b\"".toList, "\"\"".toList, "\"\\\" \"".toList] ∧
      neat text = "::= \"a  ::=b\" ::= ,\\\" x ::= ::= \"\"\"\\\" \" ::=".toList := by
  intro text
  have even : Even (quoteCount false text) := by decide +kernel
  obtain ⟨-, kept, -⟩ := neat_spaces_code text
  exact ⟨even, (kept even).trans (by decide +kernel), by decide +kernel⟩

end AsnLayout.Text
