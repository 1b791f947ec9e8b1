import AsnLayout.Proofs.Scan
import AsnLayout.Proofs.SourceLines
import AsnLayout.Proofs.Spacing

/-!
# What literals hide

A character in a string literal, quotes included, is hidden from the reader of a schema.  A text in
which every literal is closed and no comment sign stands outside of literals hides the same before
and after it is trimmed, made neat, cut at a character outside of literals or joined with a space.
The hidden characters of a text tell its literals.
-/

set_option autoImplicit false

namespace AsnLayout

namespace Quoting

def hidden (q : Quoting) : Text → Text
  | [] => []
  | c :: rest => if q.exposes c then hidden (q.next c) rest else c :: hidden (q.next c) rest

def hasSign (q : Quoting) : Text → Bool
  | [] => false
  | c :: rest =>
    (q.exposes c && c = '-' && (rest.head? = some '-' || rest.head? = some '*')) ||
      hasSign (q.next c) rest

theorem after_append (q : Quoting) (front back : Text) :
    q.after (front ++ back) = (q.after front).after back := List.foldl_append ..

theorem after_cons (q : Quoting) (c : Char) (rest : Text) :
    q.after (c :: rest) = (q.next c).after rest := rfl

theorem hidden_append (q : Quoting) (front back : Text) :
    q.hidden (front ++ back) = q.hidden front ++ (q.after front).hidden back := by
  induction front generalizing q with
  | nil => rfl
  | cons c rest ih =>
    rw [List.cons_append, hidden, hidden, after_cons, ih]
    split <;> rfl

theorem hasSign_of_append {q : Quoting} {front back : Text}
    (none : q.hasSign (front ++ back) = false) :
    q.hasSign front = false ∧ (q.after front).hasSign back = false := by
  induction front generalizing q with
  | nil => exact ⟨rfl, none⟩
  | cons c rest ih =>
    rw [List.cons_append, hasSign, Bool.or_eq_false_iff] at none
    obtain ⟨here, later⟩ := none
    obtain ⟨front, back⟩ := ih later
    refine ⟨?_, back⟩
    rw [hasSign, front, Bool.or_false]
    cases rest with
    | nil => simp
    | cons next more => exact here

/-- A sign does not arise where a text goes on with neither of its second characters. -/
theorem hasSign_append (q : Quoting) (front : Text) {back : Text} (hyphen : back.head? ≠ some '-')
    (star : back.head? ≠ some '*') :
    q.hasSign (front ++ back) = (q.hasSign front || (q.after front).hasSign back) := by
  induction front generalizing q with
  | nil => rfl
  | cons c rest ih =>
    rw [List.cons_append, hasSign, hasSign, ih, after_cons, Bool.or_assoc]
    cases rest with
    | nil => simp [hyphen, star]
    | cons next more => rfl

theorem next_of_exposes {q : Quoting} {c : Char} (shown : q.exposes c = true) (plain : c ≠ '\\') :
    q.next c = {} := by
  simp only [exposes, Bool.and_eq_true, Bool.not_eq_true'] at shown
  simp [next, shown.1, shown.2, plain]

theorem inside_after {q : Quoting} {t : Text} (absent : '"' ∉ t) :
    (q.after t).inside = q.inside := by
  induction t generalizing q with
  | nil => rfl
  | cons c rest ih =>
    simp only [List.mem_cons, not_or] at absent
    rw [after_cons, ih absent.2]
    simp [next, isQuote, Ne.symm absent.1]

theorem hidden_of_absent {q : Quoting} {t : Text} (outside : q.inside = false) (absent : '"' ∉ t) :
    q.hidden t = [] := by
  induction t generalizing q with
  | nil => rfl
  | cons c rest ih =>
    simp only [List.mem_cons, not_or] at absent
    have quiet : q.isQuote c = false := by simp [isQuote, Ne.symm absent.1]
    have outside' : (q.next c).inside = false := by simp [next, quiet, outside]
    rw [hidden, if_pos (by simp [exposes, quiet, outside]), ih outside' absent.2]

end Quoting

namespace Text

theorem ne_of_isBlank {blank solid : Char} (isBlank : isBlank blank = true)
    (isSolid : Text.isBlank solid = false) : blank ≠ solid := by
  rintro rfl
  rw [isBlank] at isSolid
  cases isSolid

def hidden (t : Text) : Text := Quoting.hidden {} t

/-- A text on one line in which every literal is closed and no comment sign stands in code. -/
structure Tame (t : Text) : Prop where
  closed : (Quoting.after {} t).inside = false
  noSign : Quoting.hasSign {} t = false
  single : '\n' ∉ t

structure Hides (t held : Text) : Prop where
  tame : Tame t
  hidden : Text.hidden t = held

namespace Hides

variable {t front back held held' : Text}

theorem nil : Hides [] [] := ⟨⟨rfl, rfl, List.not_mem_nil⟩, rfl⟩

/-- A character of code cuts a text in two. -/
theorem cut {c : Char} (hides : Hides (front ++ c :: back) held)
    (shown : (Quoting.after {} front).exposes c = true) (plain : c ≠ '\\') :
    ∃ first second, held = first ++ second ∧ Hides front first ∧ Hides back second := by
  obtain ⟨⟨closed, noSign, single⟩, rfl⟩ := hides
  have begins := Quoting.next_of_exposes shown plain
  have outside : (Quoting.after {} front).inside = false := by
    simp only [Quoting.exposes, Bool.and_eq_true, Bool.not_eq_true'] at shown
    exact shown.2
  rw [Quoting.after_append, Quoting.after_cons, begins] at closed
  obtain ⟨signs, signs'⟩ := Quoting.hasSign_of_append noSign
  rw [Quoting.hasSign, begins, Bool.or_eq_false_iff] at signs'
  simp only [List.mem_append, List.mem_cons, not_or] at single
  refine ⟨_, _, ?_, ⟨⟨outside, signs, single.1⟩, rfl⟩, ⟨⟨closed, signs'.2, single.2.2⟩, rfl⟩⟩
  rw [Text.hidden, Quoting.hidden_append, Quoting.hidden, if_pos shown, begins]
  rfl

/-- A character of code may stand between two texts, unless it makes a sign. -/
theorem join {c : Char} (hides : Hides front held) (hides' : Hides back held')
    (blank : isBlank c = true) (row : c ≠ '\n') : Hides (front ++ c :: back) (held ++ held') := by
  obtain ⟨⟨closed, noSign, single⟩, rfl⟩ := hides
  obtain ⟨⟨closed', noSign', single'⟩, rfl⟩ := hides'
  have other : ∀ mark : Char, isBlank mark = false → c ≠ mark := fun _ => ne_of_isBlank blank
  have shown : (Quoting.after {} front).exposes c = true := by
    simp [Quoting.exposes, Quoting.isQuote, closed, other '"' (by decide)]
  have begins := Quoting.next_of_exposes shown (other '\\' (by decide))
  refine ⟨⟨?_, ?_, ?_⟩, ?_⟩
  · rw [Quoting.after_append, Quoting.after_cons, begins, closed']
  · rw [Quoting.hasSign_append _ _ (by simp [other '-' (by decide)])
      (by simp [other '*' (by decide)]), noSign, Quoting.hasSign, begins, noSign']
    simp [other '-' (by decide)]
  · simp only [List.mem_append, List.mem_cons, not_or]
    exact ⟨single, Ne.symm row, single'⟩
  · rw [Text.hidden, Quoting.hidden_append, Quoting.hidden, if_pos shown, begins]
    rfl

theorem of_append (hides : Hides (front ++ back) held) (absent : '"' ∉ back) :
    Hides front held := by
  obtain ⟨⟨closed, noSign, single⟩, rfl⟩ := hides
  rw [Quoting.after_append, Quoting.inside_after absent] at closed
  refine ⟨⟨closed, (Quoting.hasSign_of_append noSign).1, ?_⟩, ?_⟩
  · exact fun newline => single (List.mem_append_left _ newline)
  · rw [Text.hidden, Text.hidden, Quoting.hidden_append, Quoting.hidden_of_absent closed absent,
      List.append_nil]

theorem of_cons {c : Char} (hides : Hides (c :: t) held) (noQuote : c ≠ '"') (plain : c ≠ '\\') :
    Hides t held := by
  have shown : (Quoting.after {} []).exposes c = true := by
    simp [Quoting.exposes, Quoting.isQuote, Quoting.after, noQuote]
  obtain ⟨first, second, rfl, empty, later⟩ := @cut [] t held c hides shown plain
  rw [show first = [] from empty.hidden.symm, List.nil_append]
  exact later

theorem of_blank_append (hides : Hides (front ++ back) held) (blank : isBlankText front = true) :
    Hides back held := by
  induction front with
  | nil => exact hides
  | cons c rest ih =>
    simp only [isBlankText, List.all_cons, Bool.and_eq_true] at blank
    have noQuote : c ≠ '"' := ne_of_isBlank blank.1 (by decide)
    have plain : c ≠ '\\' := ne_of_isBlank blank.1 (by decide)
    exact ih (hides.of_cons noQuote plain) blank.2

theorem eq_nil_of_blank (hides : Hides t held) (blank : isBlankText t = true) : held = [] := by
  rw [← List.append_nil t] at hides
  exact (hides.of_blank_append blank).hidden.symm

theorem eq_nil (hides : Hides [] held) : held = [] := hides.hidden.symm

theorem trimEndBy (hides : Hides t held) {drop : Char → Bool} (keeps : drop '"' = false) :
    Hides (Text.trimEndBy drop t) held := by
  have cut : t = Text.trimEndBy drop t ++ (t.reverse.takeWhile drop).reverse := by
    rw [Text.trimEndBy, ← List.reverse_append, List.takeWhile_append_dropWhile,
      List.reverse_reverse]
  rw [cut] at hides
  refine hides.of_append fun quote => ?_
  have dropped := List.mem_takeWhile_imp (List.mem_reverse.mp quote)
  rw [keeps] at dropped
  cases dropped

theorem trimStart (hides : Hides t held) : Hides (Text.trimStart t) held := by
  obtain ⟨front, blank, cut⟩ := exists_blank_trimStart t
  rw [cut] at hides
  exact hides.of_blank_append blank

theorem trim (hides : Hides t held) : Hides (Text.trim t) held :=
  hides.trimStart.trimEndBy (by decide)

end Hides

end Text

/-! ## Code and literals in turn -/

namespace Quoting

def quiet (q : Quoting) : Text → Bool
  | [] => true
  | c :: rest => !q.isQuote c && quiet (q.next c) rest

variable {q : Quoting} {x : Text}

theorem quiet_cons {c : Char} {rest : Text} :
    q.quiet (c :: rest) = true ↔ q.isQuote c = false ∧ (q.next c).quiet rest = true := by
  rw [quiet, Bool.and_eq_true, Bool.not_eq_true']

theorem inside_next {c : Char} (other : q.isQuote c = false) : (q.next c).inside = q.inside := by
  simp [next, other]

theorem inside_after_of_quiet (quiet : q.quiet x = true) : (q.after x).inside = q.inside := by
  induction x generalizing q with
  | nil => rfl
  | cons c rest ih =>
    obtain ⟨other, later⟩ := quiet_cons.mp quiet
    rw [after_cons, ih later, inside_next other]

theorem chunks_of_quiet (quiet : q.quiet x = true) : q.chunks x = [⟨q.inside, x⟩] := by
  induction x generalizing q with
  | nil => rfl
  | cons c rest ih =>
    obtain ⟨other, later⟩ := quiet_cons.mp quiet
    simp only [chunks, ih later, inside_next other, other, Bool.false_eq_true, if_false,
      Chunk.extend]

theorem hidden_of_quiet (quiet : q.quiet x = true) : q.hidden x = if q.inside then x else [] := by
  induction x generalizing q with
  | nil => simp [hidden]
  | cons c rest ih =>
    obtain ⟨other, later⟩ := quiet_cons.mp quiet
    rw [hidden, ih later, inside_next other]
    cases inside : q.inside <;> simp [exposes, other, inside]

theorem hasSign_of_inside (quiet : q.quiet x = true) (inside : q.inside = true) :
    q.hasSign x = false := by
  induction x generalizing q with
  | nil => rfl
  | cons c rest ih =>
    obtain ⟨other, later⟩ := quiet_cons.mp quiet
    rw [hasSign, ih later ((inside_next other).trans inside)]
    simp [exposes, inside]

theorem quiet_or_exists_quote (q : Quoting) (t : Text) :
    q.quiet t = true ∨ ∃ x rest, t = x ++ '"' :: rest ∧ q.quiet x = true ∧
      (q.after x).escaped = false := by
  induction t generalizing q with
  | nil => exact .inl rfl
  | cons c rest ih =>
    cases quote : q.isQuote c with
    | true =>
      simp only [isQuote, Bool.and_eq_true, decide_eq_true_eq, Bool.not_eq_true'] at quote
      obtain ⟨rfl, plain⟩ := quote
      exact .inr ⟨[], rest, rfl, rfl, plain⟩
    | false =>
      rcases ih (q.next c) with quiet | ⟨x, later, rfl, quiet, plain⟩
      · exact .inl (quiet_cons.mpr ⟨quote, quiet⟩)
      · exact .inr ⟨c :: x, later, rfl, quiet_cons.mpr ⟨quote, quiet⟩, plain⟩

theorem isQuote_of_escaped (plain : q.escaped = false) : q.isQuote '"' = true := by
  simp [isQuote, plain]

theorem next_quote (plain : q.escaped = false) : q.next '"' = { inside := !q.inside } := by
  simp [next, isQuote, plain]

theorem chunks_opening (quiet : q.quiet x = true) (outside : q.inside = false)
    (plain : (q.after x).escaped = false) (rest : Text) :
    q.chunks (x ++ '"' :: rest) = ⟨false, x⟩ :: Chunk.extend '"' (chunks ⟨false, true⟩ rest) := by
  induction x generalizing q with
  | nil =>
    have plain : q.escaped = false := plain
    simp only [List.nil_append, chunks, isQuote_of_escaped plain, if_true, outside,
      Bool.false_eq_true, if_false, next_quote plain, Bool.not_false]
  | cons c more ih =>
    obtain ⟨other, later⟩ := quiet_cons.mp quiet
    simp only [List.cons_append, chunks, other, Bool.false_eq_true, if_false,
      ih later ((inside_next other).trans outside) plain, Chunk.extend]

theorem chunks_closing (quiet : q.quiet x = true) (inside : q.inside = true)
    (plain : (q.after x).escaped = false) (rest : Text) :
    q.chunks (x ++ '"' :: rest) = ⟨true, x ++ ['"']⟩ :: chunks {} rest := by
  induction x generalizing q with
  | nil =>
    have plain : q.escaped = false := plain
    simp only [List.nil_append, chunks, isQuote_of_escaped plain, if_true, inside,
      next_quote plain, Bool.not_true]
  | cons c more ih =>
    obtain ⟨other, later⟩ := quiet_cons.mp quiet
    simp only [List.cons_append, chunks, other, Bool.false_eq_true, if_false,
      ih later ((inside_next other).trans inside) plain, Chunk.extend]

end Quoting

namespace Text

/-- A text of code and closed literals in turn, with its literals one behind the other. -/
inductive Woven : Text → Text → Prop where
  | code {x : Text} (quiet : Quoting.quiet {} x = true) : Woven x []
  | literal {x y rest held : Text} (quiet : Quoting.quiet {} x = true)
      (opens : (Quoting.after {} x).escaped = false) (quiet' : Quoting.quiet ⟨false, true⟩ y = true)
      (closes : (Quoting.after ⟨false, true⟩ y).escaped = false) (later : Woven rest held) :
      Woven (x ++ '"' :: (y ++ '"' :: rest)) ('"' :: (y ++ '"' :: held))

section

variable {x y : Text} (quiet : Quoting.quiet {} x = true)
  (opens : (Quoting.after {} x).escaped = false) (quiet' : Quoting.quiet ⟨false, true⟩ y = true)
  (closes : (Quoting.after ⟨false, true⟩ y).escaped = false) (rest : Text)

include quiet' closes in
theorem after_closing : (Quoting.after ⟨false, true⟩ y).next '"' = {} := by
  rw [Quoting.next_quote closes, Quoting.inside_after_of_quiet quiet']
  rfl

include quiet opens

theorem after_opening : (Quoting.after {} x).next '"' = ⟨false, true⟩ := by
  rw [Quoting.next_quote opens, Quoting.inside_after_of_quiet quiet]
  rfl

include quiet' closes

theorem after_literal :
    Quoting.after {} (x ++ '"' :: (y ++ '"' :: rest)) = Quoting.after {} rest := by
  rw [Quoting.after_append, Quoting.after_cons, after_opening quiet opens, Quoting.after_append,
    Quoting.after_cons, after_closing quiet' closes]

theorem hidden_literal :
    hidden (x ++ '"' :: (y ++ '"' :: rest)) = '"' :: (y ++ '"' :: hidden rest) := by
  have shut : ∀ q : Quoting, q.escaped = false → q.exposes '"' = false := by
    intro q plain
    simp [Quoting.exposes, Quoting.isQuote_of_escaped plain]
  rw [hidden, Quoting.hidden_append, Quoting.hidden_of_quiet quiet, Quoting.hidden,
    shut _ opens, after_opening quiet opens, Quoting.hidden_append, Quoting.hidden_of_quiet quiet',
    Quoting.hidden, shut _ closes, after_closing quiet' closes]
  rfl

theorem chunks_literal : chunks (x ++ '"' :: (y ++ '"' :: rest)) =
    ⟨false, x⟩ :: ⟨true, '"' :: (y ++ ['"'])⟩ :: chunks rest := by
  rw [chunks, Quoting.chunks_opening quiet rfl opens, Quoting.chunks_closing quiet' rfl closes]
  rfl

theorem mapCode_literal (change : Text → Text) :
    mapCode change (x ++ '"' :: (y ++ '"' :: rest)) =
      change x ++ '"' :: (y ++ '"' :: mapCode change rest) := by
  simp [mapCode, chunks_literal quiet opens quiet' closes]

theorem literals_literal :
    literals (x ++ '"' :: (y ++ '"' :: rest)) = ('"' :: (y ++ ['"'])) :: literals rest := by
  simp [literals, chunks_literal quiet opens quiet' closes]

theorem hasSign_literal : Quoting.hasSign {} (x ++ '"' :: (y ++ '"' :: rest)) =
    (Quoting.hasSign {} x || Quoting.hasSign {} rest) := by
  have quote : ∀ (q : Quoting) (more : Text),
      q.hasSign ('"' :: more) = (q.next '"').hasSign more := by
    intro q more
    simp [Quoting.hasSign]
  rw [Quoting.hasSign_append _ _ (by simp) (by simp), quote, after_opening quiet opens,
    Quoting.hasSign_append _ _ (by simp) (by simp), quote, after_closing quiet' closes,
    Quoting.hasSign_of_inside quiet' rfl, Bool.false_or]

end

theorem mapCode_of_quiet {x : Text} (quiet : Quoting.quiet {} x = true) (change : Text → Text) :
    mapCode change x = change x := by
  simp [mapCode, chunks, Quoting.chunks_of_quiet quiet]

/-- A text is code, or code before a literal that is left open, or code before a closed literal and
a rest. -/
@[elab_as_elim]
theorem casesStretches {motive : Text → Prop}
    (code : ∀ x, Quoting.quiet {} x = true → motive x)
    (opened : ∀ x y, Quoting.quiet {} x = true → (Quoting.after {} x).escaped = false →
      Quoting.quiet ⟨false, true⟩ y = true → motive (x ++ '"' :: y))
    (closed : ∀ x y rest, Quoting.quiet {} x = true → (Quoting.after {} x).escaped = false →
      Quoting.quiet ⟨false, true⟩ y = true → (Quoting.after ⟨false, true⟩ y).escaped = false →
      motive (x ++ '"' :: (y ++ '"' :: rest)))
    (t : Text) : motive t := by
  rcases Quoting.quiet_or_exists_quote {} t with quiet | ⟨x, behind, rfl, quiet, opens⟩
  · exact code t quiet
  rcases Quoting.quiet_or_exists_quote ⟨false, true⟩ behind with
    quiet' | ⟨y, rest, rfl, quiet', closes⟩
  · exact opened x behind quiet opens quiet'
  · exact closed x y rest quiet opens quiet' closes

@[elab_as_elim]
theorem inStretches {motive : Text → Prop}
    (code : ∀ x, Quoting.quiet {} x = true → motive x)
    (opened : ∀ x y, Quoting.quiet {} x = true → (Quoting.after {} x).escaped = false →
      Quoting.quiet ⟨false, true⟩ y = true → motive (x ++ '"' :: y))
    (closed : ∀ x y rest, Quoting.quiet {} x = true → (Quoting.after {} x).escaped = false →
      Quoting.quiet ⟨false, true⟩ y = true → (Quoting.after ⟨false, true⟩ y).escaped = false →
      motive rest → motive (x ++ '"' :: (y ++ '"' :: rest)))
    (t : Text) : motive t := by
  induction size : t.length using Nat.strong_induction_on generalizing t with
  | _ size ih =>
    cases t using casesStretches with
    | code t quiet => exact code t quiet
    | opened x y quiet opens quiet' => exact opened x y quiet opens quiet'
    | closed x y rest quiet opens quiet' closes =>
      refine closed x y rest quiet opens quiet' closes (ih _ ?_ rest rfl)
      rw [← size]
      simp only [List.length_append, List.length_cons]
      omega

theorem woven_of_closed {t : Text} (closed : (Quoting.after {} t).inside = false) :
    Woven t (hidden t) := by
  induction t using inStretches with
  | code x quiet =>
    have none : hidden x = [] := Quoting.hidden_of_quiet quiet
    rw [none]
    exact .code quiet
  | opened x y quiet opens quiet' =>
    -- A literal that is never closed leaves the scan inside of it.
    rw [Quoting.after_append, Quoting.after_cons, after_opening quiet opens,
      Quoting.inside_after_of_quiet quiet'] at closed
    cases closed
  | closed x y rest quiet opens quiet' closes ih =>
    rw [after_literal quiet opens quiet' closes] at closed
    rw [hidden_literal quiet opens quiet' closes]
    exact .literal quiet opens quiet' closes (ih closed)

namespace Woven

variable {t held : Text}

theorem closed (woven : Woven t held) : (Quoting.after {} t).inside = false := by
  induction woven with
  | code quiet => exact Quoting.inside_after_of_quiet quiet
  | literal quiet opens quiet' closes later ih => rw [after_literal quiet opens quiet' closes, ih]

/-- Hidden characters tell the literals of a text, and keep telling them before others. -/
theorem literals_append (woven : Woven t held) (more : Text) :
    Text.literals (held ++ more) = Text.literals t ++ Text.literals more := by
  induction woven with
  | code quiet => simp [Text.literals, chunks, Quoting.chunks_of_quiet quiet]
  | @literal x y rest held quiet opens quiet' closes later ih =>
    have front := @literals_literal [] y rfl rfl quiet' closes (held ++ more)
    rw [ih] at front
    simpa [literals_literal quiet opens quiet' closes] using front

end Woven

/-! ## Neat texts -/

/-- A change of code that opens no literal, ends with a backslash exactly if the code did, makes no
sign and adds nothing but spaces. -/
structure KeepsCode (q : Quoting) (x changed : Text) : Prop where
  quiet : q.quiet changed = true
  escaped : (q.after changed).escaped = (q.after x).escaped
  noSign : q.hasSign x = false → q.hasSign changed = false
  chars : ∀ c ∈ changed, c ∈ x ∨ c = ' '

/-- The first character of changed code is that of the code, unless it is blank. -/
theorem head?_of_collapse {t : Text} {c : Char} (solid : isBlank c = false)
    (first : (collapse t).head? = some c) : t.head? = some c := by
  induction t with
  | nil => exact first
  | cons b rest ih =>
    rw [collapse] at first
    split at first
    · split at first
      · rename_i blank next
        have later := ih first
        rw [later] at next
        simp [solid] at next
      · simp only [List.head?_cons, Option.some.injEq] at first
        subst first
        cases solid
    · exact first

theorem collapse_of_blank {b : Char} (blank : isBlank b = true) (rest : Text) :
    ∃ more, collapse (b :: rest) = ' ' :: more := by
  induction rest generalizing b with
  | nil => exact ⟨[], by simp [collapse, blank]⟩
  | cons c rest ih =>
    rw [collapse, if_pos blank]
    cases next : isBlank c with
    | true =>
      obtain ⟨more, found⟩ := ih next
      exact ⟨more, by simp [next, found]⟩
    | false => exact ⟨collapse (c :: rest), by simp [next]⟩

theorem next_of_isBlank {c : Char} (q : Quoting) (blank : isBlank c = true) :
    q.next c = q.next ' ' := by
  have noQuote : c ≠ '"' := ne_of_isBlank blank (by decide)
  have noSlash : c ≠ '\\' := ne_of_isBlank blank (by decide)
  simp [Quoting.next, Quoting.isQuote, noQuote, noSlash]

theorem KeepsCode.cons {q : Quoting} {c : Char} {x changed : Text}
    (kept : KeepsCode (q.next c) x changed) (other : q.isQuote c = false)
    (next : ∀ mark : Char, isBlank mark = false → changed.head? = some mark → x.head? = some mark) :
    KeepsCode q (c :: x) (c :: changed) := by
  refine ⟨Quoting.quiet_cons.mpr ⟨other, kept.quiet⟩, kept.escaped, fun none => ?_, ?_⟩
  · rw [Quoting.hasSign, Bool.or_eq_false_iff] at none ⊢
    refine ⟨?_, kept.noSign none.2⟩
    rw [Bool.eq_false_iff] at none ⊢
    intro sign
    refine none.1 ?_
    simp only [Bool.and_eq_true, Bool.or_eq_true, decide_eq_true_eq] at sign ⊢
    exact ⟨sign.1, sign.2.imp (next '-' (by decide)) (next '*' (by decide))⟩
  · intro d member
    rcases List.mem_cons.mp member with rfl | member
    · exact .inl (List.mem_cons_self ..)
    · exact (kept.chars d member).imp (List.mem_cons_of_mem c) id

theorem KeepsCode.space {q : Quoting} {c : Char} {x changed : Text}
    (kept : KeepsCode (q.next c) x changed) (blank : isBlank c = true) :
    KeepsCode q (c :: x) (' ' :: changed) := by
  have same := next_of_isBlank q blank
  rw [same] at kept
  have quiet : q.quiet (' ' :: changed) = true :=
    Quoting.quiet_cons.mpr ⟨by simp [Quoting.isQuote], kept.quiet⟩
  refine ⟨quiet, ?_, fun none => ?_, ?_⟩
  · rw [Quoting.after_cons, Quoting.after_cons, same, kept.escaped]
  · rw [Quoting.hasSign, same, Bool.or_eq_false_iff] at none
    rw [Quoting.hasSign, kept.noSign none.2]
    simp
  · intro d member
    rcases List.mem_cons.mp member with rfl | member
    · exact .inr rfl
    · exact (kept.chars d member).imp (List.mem_cons_of_mem c) id

theorem KeepsCode.unspace {q : Quoting} {x changed : Text}
    (kept : KeepsCode q x (' ' :: ' ' :: changed)) : KeepsCode q x (' ' :: changed) := by
  have again : (q.next ' ').next ' ' = q.next ' ' := by simp [Quoting.next, Quoting.isQuote]
  obtain ⟨quiet, escaped, noSign, chars⟩ := kept
  refine ⟨?_, ?_, fun none => ?_, fun c member => chars c (List.mem_cons_of_mem _ member)⟩
  · obtain ⟨other, later⟩ := Quoting.quiet_cons.mp quiet
    obtain ⟨-, later⟩ := Quoting.quiet_cons.mp later
    rw [again] at later
    exact Quoting.quiet_cons.mpr ⟨other, later⟩
  · rw [← escaped, Quoting.after_cons, Quoting.after_cons, Quoting.after_cons, again]
  · have both := noSign none
    rw [Quoting.hasSign, Quoting.hasSign, again, Bool.or_eq_false_iff, Bool.or_eq_false_iff] at both
    rw [Quoting.hasSign, both.2.2]
    simp

theorem keepsCode_collapse {q : Quoting} {x : Text} (quiet : q.quiet x = true) :
    KeepsCode q x (collapse x) := by
  induction x generalizing q with
  | nil => exact ⟨rfl, rfl, fun none => none, fun _ member => .inl member⟩
  | cons c rest ih =>
    obtain ⟨other, later⟩ := Quoting.quiet_cons.mp quiet
    have kept := ih later
    rw [collapse]
    split
    · rename_i blank
      have spaced := kept.space blank
      split
      · -- The blank is dropped before another one, which becomes the space.
        rename_i next
        obtain ⟨b, more, rfl⟩ : ∃ b more, rest = b :: more := by
          cases rest with
          | nil => cases next
          | cons b more => exact ⟨b, more, rfl⟩
        obtain ⟨more', found⟩ := collapse_of_blank (by simpa using next) more
        rw [found] at spaced ⊢
        exact spaced.unspace
      · exact spaced
    · exact kept.cons other fun mark solid => head?_of_collapse solid

theorem head?_of_spaceAssignments {t : Text} {c : Char} (solid : isBlank c = false)
    (first : (spaceAssignments t).head? = some c) : t.head? = some c := by
  fun_cases spaceAssignments t with
  | case1 => exact first
  | case2 rest =>
    simp only [spaceAssignments, List.head?_cons, Option.some.injEq] at first
    subst first
    cases solid
  | case3 b rest other =>
    rw [spaceAssignments.eq_3 _ _ other] at first
    exact first

theorem KeepsCode.insert {q : Quoting} {x changed : Text} (kept : KeepsCode q x changed)
    (plain : q.escaped = false) : KeepsCode q x (' ' :: changed) := by
  have same : q.next ' ' = q := by
    cases q
    simp_all [Quoting.next, Quoting.isQuote]
  refine ⟨Quoting.quiet_cons.mpr ⟨by simp [Quoting.isQuote], by rw [same, kept.quiet]⟩, ?_,
    fun none => ?_, ?_⟩
  · rw [Quoting.after_cons, same, kept.escaped]
  · rw [Quoting.hasSign, same, kept.noSign none]
    simp
  · intro c member
    rcases List.mem_cons.mp member with rfl | member
    · exact .inr rfl
    · exact kept.chars c member

theorem KeepsCode.insert_colon {q : Quoting} {x changed : Text}
    (kept : KeepsCode q x (':' :: changed)) : KeepsCode q x (' ' :: ':' :: changed) := by
  have same : (q.next ' ').next ':' = q.next ':' := by simp [Quoting.next, Quoting.isQuote]
  obtain ⟨quiet, escaped, noSign, chars⟩ := kept
  obtain ⟨other, later⟩ := Quoting.quiet_cons.mp quiet
  refine ⟨?_, ?_, fun none => ?_, ?_⟩
  · refine Quoting.quiet_cons.mpr ⟨by simp [Quoting.isQuote], Quoting.quiet_cons.mpr ⟨?_, ?_⟩⟩
    · simp [Quoting.isQuote]
    · rw [same, later]
  · rw [Quoting.after_cons, Quoting.after_cons, same, ← escaped, Quoting.after_cons]
  · have rest := noSign none
    rw [Quoting.hasSign, Bool.or_eq_false_iff] at rest
    rw [Quoting.hasSign, Quoting.hasSign, same, rest.2]
    simp
  · intro c member
    rcases List.mem_cons.mp member with rfl | member
    · exact .inr rfl
    · exact chars c member

theorem keepsCode_spaceAssignments {q : Quoting} {x : Text} (quiet : q.quiet x = true) :
    KeepsCode q x (spaceAssignments x) := by
  fun_induction spaceAssignments x generalizing q with
  | case1 => exact ⟨rfl, rfl, fun none => none, fun _ member => .inl member⟩
  | case2 rest ih =>
    obtain ⟨colon, later⟩ := Quoting.quiet_cons.mp quiet
    obtain ⟨colon', later⟩ := Quoting.quiet_cons.mp later
    obtain ⟨equals, later⟩ := Quoting.quiet_cons.mp later
    have behind := (ih later).insert (by simp [Quoting.next])
    have tail := (behind.cons equals fun mark solid first => ?_).cons colon' fun _ _ same => same
    have sign := tail.cons colon fun _ _ same => same
    · exact sign.insert_colon
    · simp only [List.head?_cons, Option.some.injEq] at first
      subst first
      cases solid
  | case3 c rest other ih =>
    obtain ⟨noQuote, later⟩ := Quoting.quiet_cons.mp quiet
    exact (ih later).cons noQuote fun mark solid => head?_of_spaceAssignments solid

theorem keepsCode_neat {x : Text} (quiet : Quoting.quiet {} x = true) :
    KeepsCode {} x (collapse (spaceAssignments x)) := by
  have spaced := keepsCode_spaceAssignments quiet
  have collapsed := keepsCode_collapse spaced.quiet
  refine ⟨collapsed.quiet, collapsed.escaped.trans spaced.escaped,
    fun none => collapsed.noSign (spaced.noSign none), fun c member => ?_⟩
  rcases collapsed.chars c member with inside | space
  · exact spaced.chars c inside
  · exact .inr space

theorem Hides.mapCode {t held : Text} {change : Text → Text}
    (keeps : ∀ x, Quoting.quiet {} x = true → KeepsCode {} x (change x)) (hides : Hides t held) :
    Hides (Text.mapCode change t) held := by
  obtain ⟨⟨closed, noSign, single⟩, rfl⟩ := hides
  have woven := woven_of_closed closed
  generalize Text.hidden t = held at woven ⊢
  induction woven with
  | code quiet =>
    have kept := keeps _ quiet
    rw [mapCode_of_quiet quiet]
    refine ⟨⟨Quoting.inside_after_of_quiet kept.quiet, kept.noSign noSign, fun newline => ?_⟩,
      Quoting.hidden_of_quiet kept.quiet⟩
    rcases kept.chars _ newline with inside | space
    · exact single inside
    · cases space
  | @literal x y rest held quiet opens quiet' closes later ih =>
    have kept := keeps _ quiet
    have opens' := kept.escaped.trans opens
    rw [mapCode_literal quiet opens quiet' closes]
    rw [hasSign_literal quiet opens quiet' closes, Bool.or_eq_false_iff] at noSign
    simp only [List.mem_append, List.mem_cons, not_or] at single
    obtain ⟨⟨closed', noSign', single'⟩, rfl⟩ := ih later.closed noSign.2 single.2.2.2.2
    refine ⟨⟨?_, ?_, ?_⟩, hidden_literal kept.quiet opens' quiet' closes _⟩
    · rw [after_literal kept.quiet opens' quiet' closes, closed']
    · rw [hasSign_literal kept.quiet opens' quiet' closes, kept.noSign noSign.1, noSign']
      rfl
    · simp only [List.mem_append, List.mem_cons, not_or]
      refine ⟨fun newline => ?_, single.2.1, single.2.2.1, single.2.2.2.1, single'⟩
      rcases kept.chars _ newline with inside | space
      · exact single.1 inside
      · cases space

namespace Hides

variable {t held : Text}

theorem neat (hides : Hides t held) : Hides (Text.neat t) held :=
  (hides.mapCode fun _ => keepsCode_neat).trim

theorem memberForm (hides : Hides t held) : Hides (Text.memberForm t) held :=
  hides.neat.trimEndBy (by decide)

end Hides

end Text

end AsnLayout
