import AsnLayout.Proofs.Cuts
import AsnLayout.Proofs.Nesting
import AsnLayout.Proofs.Reblanking

/-!
# Paired brackets

The brackets of a text outside of its literals are paired if each closes the innermost open one of
its own kind.  A paired text that is cut at its commas or at the braces of its first group gives
paired texts, and in those of the group one brace less is open at a time.
-/

set_option autoImplicit false

namespace AsnLayout

/-! ## Signs of code -/

/-- Tests of characters that no blank and no part of an assignment sign passes. -/
structure Text.TellsApart (test : Char → Bool) : Prop where
  blank : ∀ {c : Char}, isBlank c = true → test c = false
  sign : ∀ {c : Char}, c ∈ assignmentSign → test c = false

namespace Quoting

def signs (q : Quoting) (test : Char → Bool) (t : Text) : Text :=
  ((q.marks t).filter (·.passes test)).map Mark.char

variable {q : Quoting} {test : Char → Bool}

@[simp]
theorem signs_nil : q.signs test [] = [] := rfl

theorem signs_cons (c : Char) (rest : Text) : q.signs test (c :: rest) =
    (if q.exposes c && test c then [c] else []) ++ (q.next c).signs test rest := by
  simp only [signs, marks, List.filter_cons, Mark.passes]
  split <;> rfl

theorem signs_cons_of_not {c : Char} (other : test c = false) (rest : Text) :
    q.signs test (c :: rest) = (q.next c).signs test rest := by
  rw [signs_cons, other, Bool.and_false]
  rfl

theorem signs_append (front back : Text) :
    q.signs test (front ++ back) = q.signs test front ++ (q.after front).signs test back := by
  simp only [signs, marks_append, List.filter_append, List.map_append]

/-- Signs are seen alike with a backslash before the text or without one, unless it starts with a
quote. -/
theorem signs_of_inside {q' : Quoting} {c : Char} (same : q.inside = q'.inside)
    (noQuote : c ≠ '"') (rest : Text) : q.signs test (c :: rest) = q'.signs test (c :: rest) := by
  have shown : q.exposes c = q'.exposes c := by simp [exposes, isQuote, noQuote, same]
  have next : q.next c = q'.next c := by simp [Quoting.next, isQuote, noQuote, same]
  rw [signs_cons, signs_cons, shown, next]

theorem signs_of_forall {t : Text} (none : ∀ c ∈ t, test c = false) : q.signs test t = [] := by
  induction t generalizing q with
  | nil => rfl
  | cons c rest ih =>
    rw [signs_cons_of_not (none c (List.mem_cons_self ..)),
      ih fun c member => none c (List.mem_cons_of_mem _ member)]

end Quoting

namespace Text

def signs (test : Char → Bool) (t : Text) : Text := Quoting.signs {} test t

variable {test : Char → Bool}

theorem signs_cut {c : Char} {front back : Text}
    (shown : (Quoting.after {} front).exposes c = true) (plain : c ≠ '\\') :
    signs test (front ++ c :: back) =
      signs test front ++ ((if test c then [c] else []) ++ signs test back) := by
  rw [signs, Quoting.signs_append, Quoting.signs_cons, shown, Bool.true_and,
    Quoting.next_of_exposes shown plain]
  rfl

theorem signs_blank (apart : TellsApart test) {c : Char} {front back : Text}
    (closed : (Quoting.after {} front).inside = false) (blank : isBlank c = true) :
    signs test (front ++ c :: back) = signs test front ++ signs test back := by
  have noQuote : c ≠ '"' := ne_of_isBlank blank (by decide)
  have shown : (Quoting.after {} front).exposes c = true := by
    simp [Quoting.exposes, Quoting.isQuote, closed, noQuote]
  rw [signs_cut shown (ne_of_isBlank blank (by decide)), apart.blank blank]
  rfl

theorem Reblanked.signs (apart : TellsApart test) {loose : Bool} {t t' : Text}
    (same : Reblanked loose t t') (q : Quoting) : q.signs test t' = q.signs test t := by
  have space : test ' ' = false := apart.blank (by decide)
  have unmarked : ∀ c ∈ assignmentSign, c ≠ '"' ∧ c ≠ '\\' := by
    intro c mark
    obtain rfl | rfl := mem_assignmentSign.mp mark <;> decide
  induction same generalizing q with
  | nil => rfl
  | keep c later ih => rw [Quoting.signs_cons, Quoting.signs_cons, ih]
  | blank isBlank later ih =>
    rw [Quoting.signs_cons_of_not space, ih, Quoting.signs_cons_of_not (apart.blank isBlank),
      next_of_isBlank q isBlank]
  | drop isBlank isBlank' later ih =>
    rw [ih, Quoting.signs_cons_of_not (apart.blank isBlank)]
    have noQuote : _ ≠ '"' := ne_of_isBlank isBlank (by decide)
    refine Quoting.signs_of_inside ?_ (ne_of_isBlank isBlank' (by decide)) _
    exact (Quoting.inside_next (by simp [Quoting.isQuote, noQuote])).symm
  | before isLoose mark later ih =>
    rw [Quoting.signs_cons_of_not space, ih]
    exact Quoting.signs_of_inside (Quoting.inside_next (by simp [Quoting.isQuote]))
      (unmarked _ mark).1 _
  | @behind c t t' isLoose mark later ih =>
    obtain ⟨noQuote, plain⟩ := unmarked _ mark
    have same : (q.next c).next ' ' = q.next c := by
      simp [Quoting.next, Quoting.isQuote, noQuote, plain]
    rw [Quoting.signs_cons_of_not (apart.sign mark), Quoting.signs_cons_of_not space, ih,
      Quoting.signs_cons_of_not (apart.sign mark), same]

theorem signs_trimStart (apart : TellsApart test) (t : Text) :
    signs test (trimStart t) = signs test t := by
  have dropped : ∀ front back : Text, isBlankText front = true →
      signs test (front ++ back) = signs test back := by
    intro front back blank
    induction front with
    | nil => rfl
    | cons c rest ih =>
      obtain ⟨first, later⟩ := Bool.and_eq_true_iff.mp blank
      exact (@signs_blank test apart c [] (rest ++ back) rfl first).trans (ih later)
  obtain ⟨front, blank, cut⟩ := exists_blank_trimStart t
  have whole := congrArg (signs test) cut
  rw [dropped _ _ blank] at whole
  exact whole.symm

theorem signs_trimEndBy {drop : Char → Bool} (none : ∀ c, drop c = true → test c = false)
    (t : Text) : signs test (trimEndBy drop t) = signs test t := by
  have cut : t = trimEndBy drop t ++ t.rtakeWhile drop :=
    (List.rdropWhile_append_rtakeWhile ..).symm
  have whole := congrArg (signs test) cut
  rw [signs, signs, Quoting.signs_append,
    @Quoting.signs_of_forall _ test (t.rtakeWhile drop)
      (fun c member => none c (List.mem_rtakeWhile_imp member)), List.append_nil] at whole
  exact whole.symm

theorem signs_trim (apart : TellsApart test) (t : Text) : signs test (trim t) = signs test t :=
  (signs_trimEndBy (fun _ => apart.blank) _).trans (signs_trimStart apart t)

theorem signs_neat (apart : TellsApart test) (t : Text) : signs test (neat t) = signs test t := by
  obtain ⟨t', same, trimmed⟩ := reblanked_neat t
  rw [trimmed, signs_trim apart]
  exact same.signs apart {}

end Text

/-! ## Brackets of code -/

def isBracket (c : Char) : Bool := isOpener c || isCloser c

theorem tellsApart_isBracket : Text.TellsApart isBracket where
  blank := by
    intro c blank
    have other : ∀ mark : Char, Text.isBlank mark = false → c ≠ mark :=
      fun _ => Text.ne_of_isBlank blank
    simp [isBracket, isOpener, isCloser, other '{' (by decide), other '(' (by decide),
      other '[' (by decide), other '}' (by decide), other ')' (by decide), other ']' (by decide)]
  sign mark := by obtain rfl | rfl := Text.mem_assignmentSign.mp mark <;> decide

namespace Quoting

variable {q : Quoting}

def brackets (q : Quoting) (t : Text) : Text := q.signs isBracket t

@[simp]
theorem brackets_nil : q.brackets [] = [] := rfl

theorem brackets_cons (c : Char) (rest : Text) : q.brackets (c :: rest) =
    (if q.exposes c && isBracket c then [c] else []) ++ (q.next c).brackets rest :=
  signs_cons c rest

theorem brackets_append (front back : Text) :
    q.brackets (front ++ back) = q.brackets front ++ (q.after front).brackets back :=
  signs_append front back

end Quoting

namespace Text

def brackets (t : Text) : Text := Quoting.brackets {} t

theorem brackets_cut {c : Char} {front back : Text}
    (shown : (Quoting.after {} front).exposes c = true) (plain : c ≠ '\\') :
    brackets (front ++ c :: back) =
      brackets front ++ ((if isBracket c then [c] else []) ++ brackets back) :=
  signs_cut shown plain

theorem brackets_trimStart (t : Text) : brackets (trimStart t) = brackets t :=
  signs_trimStart tellsApart_isBracket t

theorem brackets_trimEnd (t : Text) : brackets (trimEnd t) = brackets t :=
  signs_trimEndBy (fun _ => tellsApart_isBracket.blank) t

theorem brackets_trim (t : Text) : brackets (trim t) = brackets t :=
  signs_trim tellsApart_isBracket t

theorem brackets_neat (t : Text) : brackets (neat t) = brackets t :=
  signs_neat tellsApart_isBracket t

theorem brackets_memberForm (t : Text) : brackets (memberForm t) = brackets t := by
  refine (signs_trimEndBy ?_ _).trans (brackets_neat t)
  intro c dropped
  rw [Bool.or_eq_true, decide_eq_true_eq] at dropped
  rcases dropped with rfl | blank
  · rfl
  · exact tellsApart_isBracket.blank blank

/-! ## Commas -/

def isDivider (c : Char) : Bool := isBracket c || c = ','

theorem tellsApart_isDivider : TellsApart isDivider where
  blank := by
    intro c blank
    have noComma : c ≠ ',' := ne_of_isBlank blank (by decide)
    simp [isDivider, tellsApart_isBracket.blank blank, noComma]
  sign mark := by obtain rfl | rfl := Text.mem_assignmentSign.mp mark <;> decide

/-- Whether every comma stands inside of brackets, `depth` of which are open before the text. -/
def commasInside (depth : Nat) : Text → Bool
  | [] => true
  | c :: rest =>
    if isOpener c then commasInside (depth + 1) rest
    else if isCloser c then commasInside (depth - 1) rest
    else if c = ',' && depth = 0 then false
    else commasInside depth rest

/-- A comma outside of brackets cuts; behind any other character the brackets are counted on. -/
theorem commasInside_cons (depth : Nat) (c : Char) (rest : Text) :
    commasInside depth (c :: rest) = (!decide (c = ',' ∧ depth = 0) &&
      commasInside (if isOpener c then depth + 1 else if isCloser c then depth - 1 else depth)
        rest) := by
  rw [commasInside]
  by_cases comma : c = ','
  · subst comma
    have opens : isOpener ',' = false := rfl
    have closes : isCloser ',' = false := rfl
    by_cases outside : depth = 0 <;> simp [opens, closes, outside]
  · split
    · simp [comma]
    · split <;> simp [comma]

theorem commasInside_step {depth : Nat} {c : Char} {rest : Text}
    (inside : commasInside depth ((if isDivider c then [c] else []) ++ rest) = true) :
    commasInside (if isOpener c then depth + 1 else if isCloser c then depth - 1 else depth) rest =
      true := by
  cases divides : isDivider c with
  | true =>
    rw [divides, if_pos rfl, List.singleton_append, commasInside_cons, Bool.and_eq_true] at inside
    exact inside.2
  | false =>
    rw [divides, if_neg (by simp), List.nil_append] at inside
    simp only [isDivider, isBracket, Bool.or_eq_false_iff] at divides
    rwa [divides.1.1, divides.1.2, if_neg (by simp), if_neg (by simp)]

def isUncut (t : Text) : Bool := commasInside 0 (signs isDivider t)

/-! ## Braces -/

theorem mem_brackets {c : Char} {q : Quoting} {t : Text} :
    c ∈ q.brackets t ↔ isBracket c = true ∧ ⟨c, true⟩ ∈ q.marks t := by
  simp only [Quoting.brackets, Quoting.signs, List.mem_map, List.mem_filter, Mark.passes,
    Bool.and_eq_true]
  constructor
  · rintro ⟨⟨c, exposed⟩, ⟨member, rfl, bracket⟩, rfl⟩
    exact ⟨bracket, member⟩
  · rintro ⟨bracket, member⟩
    exact ⟨⟨c, true⟩, ⟨member, rfl, bracket⟩, rfl⟩

theorem findIdx?_brace_eq_none (q : Quoting) (t : Text) :
    (q.marks t).findIdx? (·.passes (· = '{')) = none ↔ '{' ∉ q.brackets t := by
  rw [List.findIdx?_eq_none_iff, mem_brackets]
  constructor
  · rintro none ⟨-, member⟩
    have found := none _ member
    simp [Mark.passes] at found
  · rintro absent ⟨c, exposed⟩ member
    rw [Bool.eq_false_iff]
    intro passes
    simp only [Mark.passes, Bool.and_eq_true, decide_eq_true_eq] at passes
    obtain ⟨rfl, rfl⟩ := passes
    exact absent ⟨rfl, member⟩

theorem hasBrace_iff (t : Text) : Reader.hasBrace t = true ↔ '{' ∈ brackets t := by
  rw [Reader.hasBrace, findExposed?, Option.isSome_map, Int.toNat_zero, List.drop_zero,
    Option.isSome_iff_ne_none, ne_eq]
  exact (not_congr (findIdx?_brace_eq_none {} t)).trans not_not

theorem findExposed?_brace_eq_some {front back : Text} :
    findExposed? (front ++ '{' :: back) (· = '{') = some front.length ↔
      (Quoting.after {} front).exposes '{' = true ∧ '{' ∉ brackets front := by
  simp only [findExposed?, Int.toNat_zero, List.drop_zero, Nat.add_zero, Option.map_id', marks,
    Quoting.marks_append, List.findIdx?_append, brackets, ← findIdx?_brace_eq_none]
  cases early : (Quoting.marks {} front).findIdx? (·.passes (· = '{')) with
  | none =>
    cases shown : (Quoting.after {} front).exposes '{' with
    | true => simp [Quoting.marks, List.findIdx?_cons, Mark.passes, shown]
    | false =>
      simp only [Quoting.marks, List.findIdx?_cons, Mark.passes, shown]
      simp only [Bool.false_and, Bool.false_eq_true, if_false, Option.map_map, Option.none_or,
        Option.map_eq_some_iff, false_and, iff_false, not_exists, not_and, Quoting.length_marks,
        Function.comp_apply]
      intro index _
      omega
  | some index =>
    obtain ⟨small, -⟩ := List.findIdx?_eq_some_iff_getElem.mp early
    rw [Quoting.length_marks] at small
    simp
    omega

/-! ## Nesting at a depth -/

/-- The closing brackets waited for behind a text in which at most `levels` braces are open at a
time. -/
def nestIn (levels : Nat) (waiting : List Char) : Text → Option (List Char)
  | [] => some waiting
  | c :: rest => (nestChar waiting c).bind fun next =>
      if next.count '}' ≤ levels then nestIn levels next rest else none

theorem nestIn_append (levels : Nat) (waiting : List Char) (front back : Text) :
    nestIn levels waiting (front ++ back) =
      (nestIn levels waiting front).bind (nestIn levels · back) := by
  induction front generalizing waiting with
  | nil => rfl
  | cons c rest ih =>
    cases step : nestChar waiting c with
    | none => simp [nestIn, step]
    | some next =>
      simp only [List.cons_append, nestIn, step, Option.bind_some]
      split
      · exact ih next
      · rfl

theorem nest_of_nestIn {levels : Nat} {waiting left : List Char} {t : Text}
    (nested : nestIn levels waiting t = some left) : nest waiting t = some left := by
  induction t generalizing waiting with
  | nil => exact nested
  | cons c rest ih =>
    obtain ⟨next, step, later⟩ := Option.bind_eq_some_iff.mp nested
    split at later
    · rw [nest_cons, step]
      exact ih later
    · cases later

/-- A closing bracket waited for is one of the brackets around or was opened inside. -/
theorem nestChar_append {inner next outer : List Char} {c : Char}
    (step : nestChar inner c = some next) : nestChar (inner ++ outer) c = some (next ++ outer) := by
  obtain ⟨closer, -, -, opens⟩ | ⟨-, -, closes⟩ | ⟨-, -, neutral⟩ := nestChar_cases c
  · rw [opens, Option.some.injEq] at step
    rw [opens, ← step]
    rfl
  · obtain rfl := (closes _ _).mp step
    exact (closes _ _).mpr rfl
  · rw [neutral, Option.some.injEq] at step
    rw [neutral, step]

theorem nest_frame {inner left outer : List Char} {t : Text} (nested : nest inner t = some left) :
    nest (inner ++ outer) t = some (left ++ outer) := by
  induction t generalizing inner with
  | nil =>
    cases nested
    rfl
  | cons c rest ih =>
    obtain ⟨next, step, later⟩ := Option.bind_eq_some_iff.mp nested
    rw [nest_cons, nestChar_append step]
    exact ih later

/-- The brackets around a text take levels away from it. -/
theorem nestIn_of_frame {levels : Nat} {inner left outer after : List Char} {t : Text}
    (nested : nestIn levels (inner ++ outer) t = some after) (alone : nest inner t = some left) :
    nestIn (levels - outer.count '}') inner t = some left := by
  induction t generalizing inner with
  | nil => exact alone
  | cons c rest ih =>
    obtain ⟨next, step, later⟩ := Option.bind_eq_some_iff.mp alone
    rw [nestIn, nestChar_append step, Option.bind_some] at nested
    split at nested
    · rename_i shallow
      rw [List.count_append] at shallow
      rw [nestIn, step, Option.bind_some, if_pos (by omega)]
      exact ih nested later
    · cases nested

/-- Every bracket of a text has its partner in it, and at most `levels` braces are open at a
time. -/
def Paired (levels : Nat) (t : Text) : Prop := nestIn levels [] (brackets t) = some []

instance (levels : Nat) (t : Text) : Decidable (Paired levels t) :=
  inferInstanceAs (Decidable (nestIn levels [] (brackets t) = some []))

theorem Paired.nest {levels : Nat} {t : Text} (paired : Paired levels t) :
    Text.nest [] (brackets t) = some [] := nest_of_nestIn paired

/-! ## Groups -/

theorem nestChar_of_not_isBracket {c : Char} (other : isBracket c = false) (waiting : List Char) :
    nestChar waiting c = some waiting := by
  rw [isBracket, Bool.or_eq_false_iff] at other
  obtain ⟨closer, opens, -⟩ | ⟨-, closes, -⟩ | ⟨-, -, neutral⟩ := nestChar_cases c
  · rw [opens] at other
    cases other.1
  · rw [closes] at other
    cases other.2
  · exact neutral waiting

theorem nest_step_cases {inner next : List Char} {c : Char}
    (step : nest inner (if isBracket c then [c] else []) = some next) :
    (∃ closer, isOpener c = true ∧ next = closer :: inner) ∨
      (isOpener c = false ∧ isCloser c = true ∧ inner = c :: next) ∨
      (isOpener c = false ∧ isCloser c = false ∧ next = inner) := by
  rcases nestChar_cases c with ⟨closer, opens, -, push⟩ | ⟨noOpener, closes, pop⟩ |
    ⟨noOpener, noCloser, -⟩
  · rw [isBracket, opens, Bool.true_or, if_pos rfl, nest_cons, push] at step
    cases step
    exact .inl ⟨closer, opens, rfl⟩
  · rw [isBracket, closes, Bool.or_true, if_pos rfl] at step
    obtain ⟨below, popped, same⟩ := Option.bind_eq_some_iff.mp step
    cases same
    exact .inr (.inl ⟨noOpener, closes, (pop _ _).mp popped⟩)
  · rw [isBracket, noOpener, noCloser, Bool.or_false, if_neg (by simp)] at step
    cases step
    exact .inr (.inr ⟨noOpener, noCloser, rfl⟩)

end Text

namespace Quoting

def masked (q : Quoting) (t : Text) : Text :=
  (q.marks t).map fun mark => if mark.exposed then mark.char else '"'

theorem masked_cons (q : Quoting) (c : Char) (rest : Text) :
    q.masked (c :: rest) = (if q.exposes c then c else '"') :: (q.next c).masked rest := rfl

theorem masked_append (q : Quoting) (front back : Text) :
    q.masked (front ++ back) = q.masked front ++ (q.after front).masked back := by
  simp only [masked, marks_append, List.map_append]

@[simp]
theorem length_masked (q : Quoting) (t : Text) : (q.masked t).length = t.length := by
  rw [masked, List.length_map, length_marks]

theorem nest_masked (q : Quoting) (waiting : List Char) (t : Text) :
    Text.nest waiting (q.masked t) = Text.nest waiting (q.brackets t) := by
  induction t generalizing q waiting with
  | nil => rfl
  | cons c rest ih =>
    rw [masked_cons, brackets_cons, Text.nest_cons]
    cases shown : q.exposes c with
    | false =>
      rw [Bool.false_and, if_neg (by simp), if_neg (by simp), List.nil_append,
        Text.nestChar_of_not_isBracket (by decide), Option.bind_some, ih]
    | true =>
      rw [if_pos rfl, Bool.true_and]
      cases bracket : isBracket c with
      | true =>
        rw [if_pos rfl, List.singleton_append, Text.nest_cons]
        congr 1
        funext next
        exact ih _ next
      | false =>
        rw [if_neg (by simp), List.nil_append, Text.nestChar_of_not_isBracket bracket,
          Option.bind_some, ih]

theorem closeIndex?_masked (q : Quoting) (nested : Nat) (t : Text) :
    closeIndex? nested (q.marks t) = closeIndex? nested ((q.masked t).map (⟨·, true⟩)) := by
  induction t generalizing q nested with
  | nil => rfl
  | cons c rest ih =>
    have same : ∀ brace : Char, brace ≠ '"' →
        Mark.is ⟨c, q.exposes c⟩ brace = Mark.is ⟨if q.exposes c then c else '"', true⟩ brace := by
      intro brace other
      cases shown : q.exposes c with
      | true => simp [Mark.is]
      | false => simp [Mark.is, Ne.symm other]
    simp only [marks, masked_cons, List.map_cons, closeIndex?, same '{' (by decide),
      same '}' (by decide), ih]

end Quoting

namespace Text

/-- Up to the brace that closes an open group, every bracket has its partner. -/
theorem nest_of_groupEnd? {inside after : Text} {outer : List Char}
    (found : groupEnd? (inside ++ '}' :: after) = some inside.length)
    (nested : (nest ('}' :: outer) (brackets (inside ++ '}' :: after))).isSome = true) :
    nest [] (brackets inside) = some [] := by
  rw [groupEnd?, marks, Quoting.closeIndex?_masked] at found
  rw [brackets, ← Quoting.nest_masked] at nested
  have closed := nest_take_closeIndex? _ [] outer _ nested found
  rw [Quoting.masked_append, ← Quoting.length_masked {} inside, List.take_left,
    Quoting.nest_masked] at closed
  exact closed

/-- The search for the end of a group succeeds in a text behind which its brace is not waited
for. -/
theorem isSome_closeIndex? {t rest : Text} {inner left : List Char}
    (nested : nest (inner ++ ['}']) t = some left) (closed : '}' ∉ left) :
    (closeIndex? (inner.count '}') ((t ++ rest).map (⟨·, true⟩))).isSome = true := by
  induction t generalizing inner with
  | nil =>
    cases nested
    simp at closed
  | cons c more ih =>
    obtain ⟨next, step, later⟩ := Option.bind_eq_some_iff.mp nested
    simp only [List.cons_append, List.map_cons, closeIndex?, Mark.is, Bool.true_and,
      decide_eq_true_eq]
    split
    · rename_i opens
      subst opens
      cases step
      rw [Option.isSome_map]
      simpa using @ih ('}' :: inner) later
    rename_i noOpener
    split
    · rename_i closes
      subst closes
      cases inner with
      | nil => rfl
      | cons top below =>
        have popped : top = '}' ∧ below ++ ['}'] = next := by
          simpa [nestChar, partner?, isCloser] using step
        obtain ⟨rfl, rfl⟩ := popped
        simpa using ih later
    · rename_i noCloser
      rw [Option.isSome_map]
      obtain ⟨closer, -, isBrace, opens⟩ | ⟨-, -, closes⟩ | ⟨-, -, neutral⟩ := nestChar_cases c
      · rw [opens, Option.some.injEq] at step
        subst step
        have found := @ih (closer :: inner) later
        rwa [List.count_cons_of_ne fun same => noOpener (isBrace same)] at found
      · have popped := (closes _ _).mp step
        cases inner with
        | nil => exact absurd (List.cons.inj popped).1.symm noCloser
        | cons top below =>
          obtain ⟨rfl, rfl⟩ := List.cons.inj popped
          rw [List.count_cons_of_ne noCloser]
          exact ih later
      · rw [neutral, Option.some.injEq] at step
        subst step
        exact ih later

theorem groupEnd?_ne_none {t rest : Text} {left : List Char}
    (nested : nest ['}'] (brackets t) = some left) (closed : '}' ∉ left) :
    groupEnd? (t ++ rest) ≠ none := by
  rw [brackets, ← Quoting.nest_masked] at nested
  have found := @isSome_closeIndex? _ (Quoting.masked (Quoting.after {} t) rest) [] left nested
    closed
  rw [← Quoting.masked_append, List.count_nil, ← Quoting.closeIndex?_masked] at found
  intro none
  rw [groupEnd?, marks] at none
  rw [none] at found
  cases found

/-! ## Members -/

/-- A text is cut at the commas in front of which nothing is waited for. -/
theorem segments_cons {q : Quoting} {c : Char} {rest : Text} {waiting next : List Char}
    (step : nest waiting (if q.exposes c && isBracket c then [c] else []) = some next) :
    segments (· = ',') waiting.length (q.marks (c :: rest)) =
      if q.exposes c = true ∧ c = ',' ∧ waiting = [] then
        [] :: segments (· = ',') 0 ((q.next c).marks rest)
      else (segments (· = ',') next.length ((q.next c).marks rest)).modifyHead (c :: ·) := by
  rw [Quoting.marks, segments]
  simp only [Mark.passes]
  cases shown : q.exposes c with
  | false =>
    rw [shown] at step
    cases step
    simp
  | true =>
    rw [shown, Bool.true_and] at step
    simp only [Bool.true_and]
    obtain ⟨closer, opens, rfl⟩ | ⟨noOpener, closes, rfl⟩ | ⟨noOpener, noCloser, rfl⟩ :=
      nest_step_cases step
    · have noComma : c ≠ ',' := by
        rintro rfl
        cases opens
      rw [if_pos opens, if_neg (by simp [noComma])]
      rfl
    · rw [if_neg (by simp [noOpener]), if_pos closes, if_neg (by simp)]
      rfl
    · rw [if_neg (by simp [noOpener]), if_neg (by simp [noCloser])]
      by_cases cuts : c = ',' ∧ next = []
      · obtain ⟨rfl, rfl⟩ := cuts
        simp
      · rw [if_neg (by simpa using cuts), if_neg (by simpa using cuts)]

/-- The segments of a text whose brackets are paired are paired, the first one with what stands
before it. -/
theorem paired_segments {levels : Nat} {front t : Text} {waiting : List Char}
    (before : nestIn levels [] (brackets front) = some waiting)
    (behind : nestIn levels waiting ((Quoting.after {} front).brackets t) = some []) :
    ∃ first later, segments (· = ',') waiting.length ((Quoting.after {} front).marks t) =
        first :: later ∧
      Paired levels (front ++ first) ∧ ∀ segment ∈ later, Paired levels segment := by
  induction t generalizing front waiting with
  | nil =>
    rw [Quoting.brackets_nil] at behind
    cases behind
    refine ⟨[], [], rfl, ?_, fun _ member => by cases member⟩
    rw [List.append_nil]
    exact before
  | cons c rest ih =>
    rw [Quoting.brackets_cons, nestIn_append] at behind
    obtain ⟨next, step, behind⟩ := Option.bind_eq_some_iff.mp behind
    rw [segments_cons (nest_of_nestIn step)]
    split
    · rename_i cuts
      obtain ⟨shown, rfl, rfl⟩ := cuts
      rw [shown] at step
      cases step
      rw [Quoting.next_of_exposes shown (by decide)] at behind ⊢
      obtain ⟨first, later, cut, here, others⟩ := @ih [] [] rfl behind
      refine ⟨[], first :: later, congrArg _ cut, ?_, List.forall_mem_cons.mpr ⟨here, others⟩⟩
      rw [List.append_nil]
      exact before
    · -- A character that cuts nothing goes to the first segment behind it.
      have scan : (Quoting.after {} front).next c = Quoting.after {} (front ++ [c]) := by
        rw [Quoting.after_append]
        rfl
      have longer : nestIn levels [] (brackets (front ++ [c])) = some next := by
        rw [brackets, Quoting.brackets_append, nestIn_append, show Quoting.brackets {} front =
          brackets front from rfl, before, Option.bind_some, Quoting.brackets_cons,
          Quoting.brackets_nil, List.append_nil, step]
      rw [scan] at behind ⊢
      obtain ⟨first, later, cut, here, others⟩ := ih longer behind
      refine ⟨c :: first, later, by rw [cut]; rfl, ?_, others⟩
      rwa [List.append_assoc] at here

theorem Paired.memberForm {levels : Nat} {t : Text} (paired : Paired levels t) :
    Paired levels (Text.memberForm t) := by
  rw [Paired, brackets_memberForm]
  exact paired

theorem forall_members {good : Text → Prop} {t first : Text} {later : List Text}
    (cut : segments (· = ',') 0 (marks t) = first :: later) (here : good (memberForm first))
    (others : ∀ segment ∈ later, good (memberForm segment)) : ∀ part ∈ members t, good part := by
  intro part member
  rw [members, cut] at member
  obtain ⟨segment, inside, rfl⟩ := List.mem_map.mp (List.mem_of_mem_filter member)
  rcases List.mem_cons.mp inside with rfl | inside
  · exact here
  · exact others segment inside

theorem Paired.members {levels : Nat} {t : Text} (paired : Paired levels t) :
    ∀ part ∈ Text.members t, Paired levels part := by
  obtain ⟨first, later, cut, here, others⟩ := @paired_segments levels [] t [] rfl paired
  exact forall_members cut here.memberForm fun segment inside => (others segment inside).memberForm

/-! ## The first group -/

theorem not_mem_of_nest {t : Text} {waiting left : List Char} (nested : nest waiting t = some left)
    (unopened : '{' ∉ t) (absent : '}' ∉ waiting) : '}' ∉ left := by
  induction t generalizing waiting with
  | nil =>
    cases nested
    exact absent
  | cons c rest ih =>
    obtain ⟨next, step, later⟩ := Option.bind_eq_some_iff.mp nested
    simp only [List.mem_cons, not_or] at unopened
    refine ih later unopened.2 ?_
    obtain ⟨closer, -, isBrace, opens⟩ | ⟨-, -, closes⟩ | ⟨-, -, neutral⟩ := nestChar_cases c
    · rw [opens, Option.some.injEq] at step
      subst step
      simp only [List.mem_cons, not_or]
      exact ⟨fun same => unopened.1 (isBrace same.symm).symm, absent⟩
    · obtain rfl := (closes _ _).mp step
      exact fun member => absent (List.mem_cons_of_mem _ member)
    · rw [neutral, Option.some.injEq] at step
      rwa [← step]

theorem exposes_of_groupEnd? {inside after : Text}
    (closes : groupEnd? (inside ++ '}' :: after) = some inside.length) :
    (Quoting.after {} inside).exposes '}' = true := by
  obtain ⟨front, mark, back, cut, size, isBrace⟩ := closeIndex?_eq_some 0 _ _ closes
  obtain ⟨inside', c, after', whole, size', rfl⟩ := Quoting.exists_of_marks cut
  obtain ⟨rfl, -⟩ := List.append_inj whole (by omega)
  simp only [Mark.is, Bool.and_eq_true, decide_eq_true_eq] at isBrace
  obtain ⟨shown, rfl⟩ := isBrace
  exact shown

theorem brackets_group {before inside after : Text}
    (opens : findExposed? (before ++ '{' :: (inside ++ '}' :: after)) (· = '{') =
      some before.length)
    (closes : groupEnd? (inside ++ '}' :: after) = some inside.length) :
    brackets (before ++ '{' :: (inside ++ '}' :: after)) =
      brackets before ++ '{' :: (brackets inside ++ '}' :: brackets after) := by
  rw [brackets_cut (findExposed?_brace_eq_some.mp opens).1 (by decide),
    brackets_cut (exposes_of_groupEnd? closes) (by decide)]
  rfl

/-- What is waited for before the first group of a paired text is waited for behind it, and inside
of the group all brackets are paired. -/
theorem Paired.group {levels : Nat} {before inside after : Text}
    (paired : Paired levels (before ++ '{' :: (inside ++ '}' :: after)))
    (opens : findExposed? (before ++ '{' :: (inside ++ '}' :: after)) (· = '{') =
      some before.length)
    (closes : groupEnd? (inside ++ '}' :: after) = some inside.length) :
    ∃ outer, Text.nest [] (brackets before) = some outer ∧ '}' ∉ outer ∧
      Text.nest outer (brackets after) = some [] ∧ 1 ≤ levels ∧ Paired (levels - 1) inside := by
  rw [Paired, brackets_group opens closes, nestIn_append] at paired
  obtain ⟨outer, early, nested⟩ := Option.bind_eq_some_iff.mp paired
  have front := nest_of_nestIn early
  have absent : '}' ∉ outer :=
    not_mem_of_nest front (findExposed?_brace_eq_some.mp opens).2 List.not_mem_nil
  rw [nestIn, show nestChar outer '{' = some ('}' :: outer) from rfl, Option.bind_some] at nested
  split at nested
  · rename_i shallow
    have alone : Text.nest [] (brackets inside) = some [] := by
      refine @nest_of_groupEnd? inside after outer closes ?_
      rw [brackets_cut (exposes_of_groupEnd? closes) (by decide)]
      exact Option.isSome_of_eq_some (nest_of_nestIn nested)
    rw [nestIn_append] at nested
    obtain ⟨middle, within, behind⟩ := Option.bind_eq_some_iff.mp nested
    have framed : Text.nest ('}' :: outer) (brackets inside) = some ('}' :: outer) :=
      nest_frame alone
    rw [nest_of_nestIn within, Option.some.injEq] at framed
    subst framed
    have inner := @nestIn_of_frame levels [] [] ('}' :: outer) _ _ within alone
    rw [List.count_cons_self, List.count_eq_zero_of_not_mem absent] at shallow inner
    refine ⟨outer, front, absent, ?_, by omega, inner⟩
    obtain ⟨next, step, rest⟩ := Option.bind_eq_some_iff.mp (nest_of_nestIn behind)
    have popped : outer = next := by simpa [nestChar, partner?, isCloser] using step
    rw [popped]
    exact rest
  · cases nested

/-! ## Balance -/

theorem braceBalance_eq (t : Text) :
    braceBalance t = ((brackets t).count '{' : Int) - (brackets t).count '}' := by
  have scanned : ∀ q : Quoting, (q.marks t).foldr (fun mark total => mark.braceStep + total) 0 =
      ((q.brackets t).count '{' : Int) - (q.brackets t).count '}' := by
    induction t with
    | nil => exact fun _ => rfl
    | cons c rest ih =>
      intro q
      rw [Quoting.marks, List.foldr_cons, ih, Quoting.brackets_cons, List.count_append,
        List.count_append, Mark.braceStep]
      simp only [Mark.is, Bool.and_eq_true, decide_eq_true_eq]
      by_cases opens : q.exposes c = true ∧ c = '{'
      · obtain ⟨shown, rfl⟩ := opens
        simp [shown, isBracket, isOpener]
        omega
      rw [if_neg opens]
      by_cases closes : q.exposes c = true ∧ c = '}'
      · obtain ⟨shown, rfl⟩ := closes
        simp [shown, isBracket, isCloser]
        omega
      · rw [if_neg closes]
        split
        · rename_i bracket
          have noOpener : c ≠ '{' := fun same => opens ⟨bracket.1, same⟩
          have noCloser : c ≠ '}' := fun same => closes ⟨bracket.1, same⟩
          simp [noOpener, noCloser]
        · simp
  exact scanned {}

/-- The braces of a text that closes no brace before it and leaves none open are balanced. -/
theorem balance_of_nest {t : Text} {waiting left : List Char}
    (nested : nest waiting t = some left) :
    (t.count '{' : Int) - t.count '}' = left.count '}' - waiting.count '}' := by
  induction t generalizing waiting with
  | nil =>
    cases nested
    simp
  | cons c rest ih =>
    obtain ⟨next, step, later⟩ := Option.bind_eq_some_iff.mp nested
    have there := ih later
    by_cases opener : c = '{'
    · subst opener
      cases step
      rw [List.count_cons_self] at there
      simp
      omega
    by_cases closer : c = '}'
    · subst closer
      obtain rfl : waiting = '}' :: next := by
        cases waiting with
        | nil => cases step
        | cons top below =>
          obtain ⟨rfl, rfl⟩ : top = '}' ∧ below = next := by
            simpa [nestChar, partner?, isCloser] using step
          rfl
      simp
      omega
    rw [List.count_cons_of_ne opener, List.count_cons_of_ne closer, there]
    obtain ⟨bracket, -, isBrace, opens⟩ | ⟨-, -, closes⟩ | ⟨-, -, neutral⟩ := nestChar_cases c
    · rw [opens, Option.some.injEq] at step
      rw [← step, List.count_cons_of_ne fun same => opener (isBrace same)]
    · rw [(closes _ _).mp step, List.count_cons_of_ne closer]
    · rw [neutral, Option.some.injEq] at step
      rw [step]

/-! ## Texts that fit into a body -/

theorem forall_segments {good : Text → Prop}
    (cuts : ∀ front back, good (front ++ ',' :: back) → good front ∧ good back) {q : Quoting}
    {front t : Text} (depth : Nat) (whole : good (front ++ t)) :
    ∃ first later, segments (· = ',') depth (q.marks t) = first :: later ∧ good (front ++ first) ∧
      ∀ segment ∈ later, good segment := by
  induction t generalizing q front depth with
  | nil => exact ⟨[], [], rfl, whole, fun _ member => by cases member⟩
  | cons c rest ih =>
    have onward : ∀ depth' : Nat, ∃ first later,
        (segments (· = ',') depth' ((q.next c).marks rest)).modifyHead (c :: ·) = first :: later ∧
          good (front ++ first) ∧ ∀ segment ∈ later, good segment := by
      intro depth'
      obtain ⟨first, later, cut, here, others⟩ :=
        @ih (q.next c) (front ++ [c]) depth' (by simpa using whole)
      exact ⟨c :: first, later, by rw [cut]; rfl, by simpa using here, others⟩
    rw [Quoting.marks, segments]
    split
    · exact onward _
    split
    · exact onward _
    split
    · rename_i cut
      simp only [Mark.passes, Bool.and_eq_true, decide_eq_true_eq] at cut
      obtain ⟨⟨-, rfl⟩, -⟩ := cut
      obtain ⟨early, late⟩ := cuts _ _ whole
      obtain ⟨first, later, cut, here, others⟩ := @ih (q.next ',') [] depth late
      refine ⟨[], first :: later, congrArg _ cut, by simpa using early, ?_⟩
      intro segment member
      rcases List.mem_cons.mp member with rfl | member
      · exact here
      · exact others segment member
    · exact onward _

theorem Calm.members {t : Text} (calm : Calm t) : ∀ part ∈ Text.members t, Calm part := by
  obtain ⟨first, later, cut, here, others⟩ :=
    @forall_segments Calm (fun _ _ => (append_iff (by decide +kernel) (by decide)).mp) {} [] t 0
      calm
  exact forall_members cut here.memberForm fun segment inside => (others segment inside).memberForm

/-- A text that fits into a body with room for `levels` groups inside of each other. -/
structure Fit (levels : Nat) (t : Text) : Prop where
  calm : Calm t
  paired : Paired levels t

instance (levels : Nat) (t : Text) : Decidable (Fit levels t) :=
  decidable_of_iff (Calm t ∧ Paired levels t)
    ⟨fun both => ⟨both.1, both.2⟩, fun fit => ⟨fit.calm, fit.paired⟩⟩

theorem Fit.members {levels : Nat} {t : Text} (fit : Fit levels t) :
    ∀ part ∈ Text.members t, Fit levels part :=
  fun part member => ⟨fit.calm.members part member, fit.paired.members part member⟩

/-- The parts of a group on one line: what is waited for before the group is waited for behind it,
and the members fit into the group. -/
structure FitGroup (levels : Nat) (outer : List Char) (before : Text)
    (group : Layout.InlineGroup) : Prop where
  members : ∀ part ∈ group.members, Fit levels part
  calm : Calm before
  calmTrailer : Calm group.trailer
  noBrace : '{' ∉ brackets before
  header : nest [] (brackets before) = some outer
  absent : '}' ∉ outer
  trailer : nest outer (brackets group.trailer) = some []

theorem Fit.braceBalance_eq {levels : Nat} {t : Text} (fit : Fit levels t) : braceBalance t = 0 := by
  have balance := balance_of_nest fit.paired.nest
  rw [Text.braceBalance_eq]
  simpa using balance

theorem FitGroup.braceBalance_trailer {levels : Nat} {outer : List Char} {before : Text}
    {group : Layout.InlineGroup} (parts : FitGroup levels outer before group) :
    braceBalance group.trailer = 0 := by
  have balance := balance_of_nest parts.trailer
  rw [List.count_eq_zero_of_not_mem parts.absent] at balance
  rw [braceBalance_eq]
  simpa using balance

theorem Fit.inlineGroup? {levels : Nat} {front t : Text} {group : Layout.InlineGroup}
    (fit : Fit levels t) (found : Layout.inlineGroup? front t = some group) :
    ∃ outer before, 1 ≤ levels ∧ group.header = Text.trim (front ++ ' ' :: Text.trim before) ∧
      FitGroup (levels - 1) outer before group := by
  obtain ⟨before, inside, after, rfl, opens, closes, header, members, trailer⟩ :=
    Layout.inlineGroup?_eq_some _ _ _ found
  obtain ⟨outer, early, absent, late, deep, within⟩ := fit.paired.group opens closes
  obtain ⟨calmBefore, rest⟩ := (Calm.append_iff (by decide +kernel) (by decide)).mp fit.calm
  obtain ⟨calmInside, calmAfter⟩ := (Calm.append_iff (by decide +kernel) (by decide)).mp rest
  refine ⟨outer, before, deep, header, ?_, calmBefore, ?_, ?_, early, absent, ?_⟩
  · rw [members]
    exact (Fit.mk calmInside within).members
  · rw [trailer]
    exact calmAfter.trim
  · exact (findExposed?_brace_eq_some.mp opens).2
  · rw [trailer, brackets_trim]
    exact late

end Text

end AsnLayout
