import AsnLayout.Page
import Mathlib.Data.List.Infix

/-!
# Reading a highlighted page

What stands between the tags of a block of code is the highlighted text and nothing else: spans that
follow each other, between and in which every character with a meaning in HTML is written as an
entity.  Without the tags of the spans, and with the entities read back, it is the text again.
-/

set_option autoImplicit false

namespace AsnLayout

namespace Text

/-! ## The first place of a mark -/

theorem not_prefix_append {mark front : Text} (noMark : ¬mark <+: front) (noFront : ¬front <+: mark)
    (back : Text) : ¬mark <+: front ++ back := fun starts =>
  (List.prefix_or_prefix_of_prefix starts (List.prefix_append front back)).elim noMark noFront

/-- A mark begins at no place of a text, whatever follows the text. -/
inductive Avoids (mark : Text) : Text → Prop where
  | nil : Avoids mark []
  | cons {c : Char} {front : Text} (here : ∀ back, ¬mark <+: c :: front ++ back)
      (later : Avoids mark front) : Avoids mark (c :: front)

theorem Avoids.append {mark front back : Text} (first : Avoids mark front)
    (second : Avoids mark back) : Avoids mark (front ++ back) := by
  induction first with
  | nil => exact second
  | cons here later ih =>
    refine .cons (fun behind => ?_) ih
    have apart := here (back ++ behind)
    rwa [← List.append_assoc] at apart

theorem avoids_of_not_mem {c : Char} {mark front : Text} (absent : c ∉ front) :
    Avoids (c :: mark) front := by
  induction front with
  | nil => exact .nil
  | cons d front ih =>
    have other := List.ne_of_not_mem_cons absent
    have later := List.not_mem_of_not_mem_cons absent
    exact .cons (fun back starts => other (List.cons_prefix_cons.mp starts).1) (ih later)

/-- A text that is long enough is seen to avoid a mark. -/
theorem avoids_of_tails {mark front : Text}
    (apart : front.tails.all (fun rest =>
      rest.isEmpty || !(mark.isPrefixOf rest || rest.isPrefixOf mark)) = true) :
    Avoids mark front := by
  induction front with
  | nil => exact .nil
  | cons c front ih =>
    rw [List.tails_cons, List.all_cons, Bool.and_eq_true] at apart
    obtain ⟨here, later⟩ := apart
    rw [List.isEmpty_cons, Bool.false_or, Bool.not_eq_true', Bool.or_eq_false_iff] at here
    refine .cons (not_prefix_append ?_ ?_) (ih later)
    · exact fun starts => by simp [List.isPrefixOf_iff_prefix.mpr starts] at here
    · exact fun starts => by simp [List.isPrefixOf_iff_prefix.mpr starts] at here

theorem cutAt?_of_avoids {mark front : Text} (filled : mark ≠ []) (avoids : Avoids mark front)
    (back : Text) : cutAt? mark (front ++ (mark ++ back)) = some (front, back) := by
  induction avoids with
  | nil =>
    cases mark with
    | nil => exact absurd rfl filled
    | cons c mark =>
      have starts : startsWith (c :: (mark ++ back)) (c :: mark) = true :=
        List.isPrefixOf_iff_prefix.mpr (List.prefix_append (c :: mark) back)
      rw [List.nil_append, List.cons_append, cutAt?, if_pos starts, ← List.cons_append,
        List.drop_left]
  | @cons c front here later ih =>
    have noStart : startsWith (c :: (front ++ (mark ++ back))) mark = false :=
      Bool.eq_false_iff.mpr fun starts => here _ (List.isPrefixOf_iff_prefix.mp starts)
    rw [List.cons_append, cutAt?, noStart, ih]
    rfl

/-! ## Replacing marks -/

/-- The text with marks replaced from left to right in one pass, the first `skip` characters of it
belonging to the mark before. -/
def replaceMarks (rules : List (Text × Text)) (skip : Nat) : Text → Text
  | [] => []
  | c :: rest =>
    match skip with
    | skip + 1 => replaceMarks rules skip rest
    | 0 =>
      match rules.find? fun rule => startsWith (c :: rest) rule.1 with
      | some (mark, image) => image ++ replaceMarks rules (mark.length - 1) rest
      | none => c :: replaceMarks rules 0 rest

structure MarkedBy (sign : Char) (rules : List (Text × Text)) : Prop where
  head : ∀ rule ∈ rules, rule.1.head? = some sign
  apart : ∀ rule ∈ rules, ∀ other ∈ rules, other.1 <+: rule.1 → other = rule

instance (sign : Char) (rules : List (Text × Text)) : Decidable (MarkedBy sign rules) :=
  decidable_of_iff ((∀ rule ∈ rules, rule.1.head? = some sign) ∧
      ∀ rule ∈ rules, ∀ other ∈ rules, other.1 <+: rule.1 → other = rule)
    ⟨fun ⟨head, apart⟩ => ⟨head, apart⟩, fun ⟨head, apart⟩ => ⟨head, apart⟩⟩

variable {sign : Char} {rules : List (Text × Text)}

theorem replaceMarks_skip (own back : Text) :
    replaceMarks rules own.length (own ++ back) = replaceMarks rules 0 back := by
  induction own with
  | nil => rfl
  | cons c own ih => exact ih

theorem MarkedBy.replaceMarks_mark (marked : MarkedBy sign rules) {mark image : Text}
    (member : (mark, image) ∈ rules) (back : Text) :
    replaceMarks rules 0 (mark ++ back) = image ++ replaceMarks rules 0 back := by
  have found : rules.find? (fun rule => startsWith (mark ++ back) rule.1) = some (mark, image) := by
    cases found : rules.find? fun rule => startsWith (mark ++ back) rule.1 with
    | none =>
      exact absurd (List.isPrefixOf_iff_prefix.mpr (List.prefix_append mark back))
        (List.find?_eq_none.mp found _ member)
    | some other =>
      have inRules := List.mem_of_find?_eq_some found
      have starts := List.find?_some found
      rw [startsWith, List.isPrefixOf_iff_prefix] at starts
      rcases List.prefix_or_prefix_of_prefix starts (List.prefix_append mark back) with
        inside | longer
      · rw [marked.apart _ member other inRules inside]
      · rw [marked.apart other inRules _ member longer]
  obtain ⟨own, rfl⟩ := List.head?_eq_some_iff.mp (marked.head _ member)
  rw [List.cons_append] at found ⊢
  simp only [replaceMarks, found, List.length_cons, Nat.add_sub_cancel, replaceMarks_skip]

theorem MarkedBy.replaceMarks_append (marked : MarkedBy sign rules) {front : Text}
    (absent : sign ∉ front) (back : Text) :
    replaceMarks rules 0 (front ++ back) = front ++ replaceMarks rules 0 back := by
  induction front with
  | nil => rfl
  | cons c front ih =>
    have other := List.ne_of_not_mem_cons absent
    have later := List.not_mem_of_not_mem_cons absent
    have none : rules.find? (fun rule => startsWith (c :: (front ++ back)) rule.1) = none := by
      refine List.find?_eq_none.mpr fun rule member starts => other ?_
      obtain ⟨own, mark⟩ := List.head?_eq_some_iff.mp (marked.head rule member)
      rw [mark] at starts
      exact (List.cons_prefix_cons.mp (List.isPrefixOf_iff_prefix.mp starts)).1
    simp only [List.cons_append, replaceMarks, none, ih later]

end Text

namespace Page

/-! ## Tags and entities -/

def codeStart : Text := "<code class=\"language-asn1\">".toList

def codeEnd : Text := "</code>".toList

def classes : List String :=
  ["comment", "string", "number", "keyword", "operator", "tag", "punctuation"]

def spanStart (name : String) : Text :=
  "<span class=\"asn1-".toList ++ name.toList ++ "\">".toList

def spanEnd : Text := "</span>".toList

def spanTags : List (Text × Text) := (spanEnd :: classes.map spanStart).map fun tag => (tag, [])

def entities : List (Text × Text) :=
  [("&amp;".toList, ['&']), ("&lt;".toList, ['<']), ("&gt;".toList, ['>']),
   ("&#39;".toList, ['\'']), ("&#34;".toList, ['"'])]

/-- Whether every `<` begins a tag of a span and the tags before and behind spans take turns, where
`inside` tells whether a span is open. -/
def takesTurns (inside : Bool) : Text → Bool
  | [] => !inside
  | c :: rest =>
    if c ≠ '<' then takesTurns inside rest
    else if inside then Text.startsWith (c :: rest) spanEnd && takesTurns false rest
    else
      classes.any (fun name => Text.startsWith (c :: rest) (spanStart name)) &&
        takesTurns true rest

theorem markedBy_spanTags : Text.MarkedBy '<' spanTags := by decide +kernel

theorem mem_spanTags {name : String} (member : name ∈ classes) : (spanStart name, []) ∈ spanTags :=
  List.mem_map_of_mem (List.mem_cons_of_mem _ (List.mem_map_of_mem member))

theorem markedBy_entities : Text.MarkedBy '&' entities := by decide +kernel

/-! ## Escaped texts -/

theorem escapeChar_cases (c : Char) :
    (escapeChar c, [c]) ∈ entities ∨ escapeChar c = [c] ∧ c ≠ '&' ∧ c ≠ '<' := by
  unfold escapeChar
  split
  · exact .inl (by decide)
  · exact .inl (by decide)
  · exact .inl (by decide)
  · exact .inl (by decide)
  · exact .inl (by decide)
  · rename_i noAmpersand noLess _ _ _
    exact .inr ⟨rfl, noAmpersand, noLess⟩

theorem less_not_mem_escape (text : Text) : '<' ∉ escape text := by
  have safe : ∀ rule ∈ entities, '<' ∉ rule.1 := by decide
  intro member
  obtain ⟨c, -, inChar⟩ := List.mem_flatMap.mp member
  rcases escapeChar_cases c with entity | ⟨same, -, noLess⟩
  · exact safe _ entity inChar
  · rw [same] at inChar
    exact noLess (List.mem_singleton.mp inChar).symm

theorem replaceMarks_escape (text : Text) :
    Text.replaceMarks entities 0 (escape text) = text := by
  induction text with
  | nil => rfl
  | cons c rest ih =>
    rw [escape, List.flatMap_cons]
    rcases escapeChar_cases c with entity | ⟨same, noAmpersand, -⟩
    · rw [markedBy_entities.replaceMarks_mark entity]
      exact congrArg (c :: ·) ih
    · have absent : '&' ∉ [c] := List.not_mem_cons_of_ne_of_not_mem noAmpersand.symm nofun
      rw [same, markedBy_entities.replaceMarks_append absent]
      exact congrArg (c :: ·) ih

/-! ## Spans -/

theorem takesTurns_append {inside : Bool} {front : Text} (absent : '<' ∉ front) (back : Text) :
    takesTurns inside (front ++ back) = takesTurns inside back := by
  induction front with
  | nil => rfl
  | cons c front ih =>
    have other := List.ne_of_not_mem_cons absent
    have later := List.not_mem_of_not_mem_cons absent
    rw [List.cons_append, takesTurns, if_pos other.symm, ih later]

theorem takesTurns_spanEnd (back : Text) :
    takesTurns true (spanEnd ++ back) = takesTurns false back := by
  have starts : Text.startsWith (spanEnd ++ back) spanEnd = true :=
    List.isPrefixOf_iff_prefix.mpr (List.prefix_append _ _)
  have sign : spanEnd = '<' :: "/span>".toList := rfl
  rw [sign, List.cons_append] at starts ⊢
  rw [takesTurns, if_neg (by simp), if_pos rfl, sign, starts, Bool.true_and,
    takesTurns_append (by decide)]

theorem takesTurns_spanStart {name : String} (member : name ∈ classes) (back : Text) :
    takesTurns false (spanStart name ++ back) = takesTurns true back := by
  have starts : classes.any (fun other =>
      Text.startsWith (spanStart name ++ back) (spanStart other)) = true :=
    List.any_eq_true.mpr ⟨name, member, List.isPrefixOf_iff_prefix.mpr (List.prefix_append _ _)⟩
  have plain : ∀ name ∈ classes, '<' ∉ (spanStart name).tail := by decide +kernel
  have absent := plain name member
  obtain ⟨own, tag⟩ : ∃ own, spanStart name = '<' :: own :=
    List.head?_eq_some_iff.mp (markedBy_spanTags.head _ (mem_spanTags member))
  rw [tag, List.tail_cons] at absent
  rw [tag, List.cons_append] at starts ⊢
  rw [takesTurns, if_neg (by simp), if_neg (by simp), starts, Bool.true_and,
    takesTurns_append absent]

theorem classOf?_mem {kind : TokenKind} {name : String} (colour : classOf? kind = some name) :
    name ∈ classes := by
  cases kind <;> simp_all [classOf?, classes]

theorem token_cases (given : Token) :
    token given = escape given.text ∨
      ∃ name ∈ classes, token given = spanStart name ++ (escape given.text ++ spanEnd) := by
  cases colour : classOf? given.kind with
  | none =>
    left
    simp only [token, colour]
  | some name =>
    refine .inr ⟨name, classOf?_mem colour, ?_⟩
    unfold token spanStart spanEnd
    rw [colour]
    simp only [List.append_assoc]

theorem takesTurns_tokens (tokens : List Token) : takesTurns false (tokens.flatMap token) = true := by
  induction tokens with
  | nil => rfl
  | cons first later ih =>
    rw [List.flatMap_cons]
    rcases token_cases first with plain | ⟨name, member, span⟩
    · rw [plain, takesTurns_append (less_not_mem_escape _), ih]
    · rw [span, List.append_assoc, takesTurns_spanStart member, List.append_assoc,
        takesTurns_append (less_not_mem_escape _), takesTurns_spanEnd, ih]

theorem replaceMarks_tokens (tokens : List Token) :
    Text.replaceMarks spanTags 0 (tokens.flatMap token) =
      escape (tokens.flatMap Token.text) := by
  induction tokens with
  | nil => rfl
  | cons first later ih =>
    have whole : escape ((first :: later).flatMap Token.text) =
        escape first.text ++ escape (later.flatMap Token.text) := List.flatMap_append
    rw [List.flatMap_cons, whole]
    rcases token_cases first with plain | ⟨name, member, span⟩
    · rw [plain, markedBy_spanTags.replaceMarks_append (less_not_mem_escape _), ih]
    · have closes : (spanEnd, []) ∈ spanTags := List.mem_map_of_mem List.mem_cons_self
      rw [span, List.append_assoc, markedBy_spanTags.replaceMarks_mark (mem_spanTags member),
        List.nil_append,
        List.append_assoc, markedBy_spanTags.replaceMarks_append (less_not_mem_escape _),
        markedBy_spanTags.replaceMarks_mark closes, List.nil_append, ih]

theorem avoids_tokens (tokens : List Token) : Text.Avoids codeEnd (tokens.flatMap token) := by
  induction tokens with
  | nil => exact .nil
  | cons first later ih =>
    have starts : ∀ name ∈ classes, (spanStart name).tails.all (fun rest =>
        rest.isEmpty || !(codeEnd.isPrefixOf rest || rest.isPrefixOf codeEnd)) = true := by
      decide +kernel
    have inner : Text.Avoids codeEnd (escape first.text) :=
      Text.avoids_of_not_mem (less_not_mem_escape _)
    rw [List.flatMap_cons]
    refine .append ?_ ih
    rcases token_cases first with plain | ⟨name, member, span⟩
    · rwa [plain]
    · rw [span]
      exact (Text.avoids_of_tails (starts name member)).append
        (inner.append (Text.avoids_of_tails (by decide +kernel)))

/-! ## The block on its page -/

def preface (standalone : Bool) (title : Text) : Text :=
  (if standalone then head title else []) ++ "<pre class=\"asn1-block\">".toList

def postscript (standalone : Bool) : Text :=
  "</pre>\n".toList ++ (if standalone then foot else []) ++ ['\n']

theorem highlight_eq (text : Text) (standalone : Bool) (title : Text) :
    Text.highlight text standalone title =
      preface standalone title ++
        (codeStart ++ ((Text.tokens text).flatMap token ++ (codeEnd ++ postscript standalone))) := by
  have opens : "<pre class=\"asn1-block\"><code class=\"language-asn1\">".toList =
      "<pre class=\"asn1-block\">".toList ++ codeStart := by decide
  have closes : "</code></pre>\n".toList = codeEnd ++ "</pre>\n".toList := by decide
  unfold Text.highlight block preface postscript
  rw [opens, closes]
  cases standalone <;> simp only [if_true, Bool.false_eq_true, if_false, List.append_assoc,
    List.nil_append]

/-- Neither the page before the code nor its title holds the tag of the code. -/
theorem avoids_preface (standalone : Bool) (title : Text) :
    Text.Avoids codeStart (preface standalone title) := by
  have inTitle : Text.Avoids codeStart (escape title) :=
    Text.avoids_of_not_mem (less_not_mem_escape _)
  unfold preface
  refine .append ?_ (Text.avoids_of_tails (by decide +kernel))
  cases standalone with
  | false => exact .nil
  | true =>
    -- The style is taken line by line, since a long text is slow to spell out.
    have noTag : '<' ∉ styleSheet.toList := by
      unfold styleSheet
      simp only [String.toList_append, List.mem_append, not_or]
      decide +kernel
    have inStyle : Text.Avoids codeStart styleSheet.toList := Text.avoids_of_not_mem noTag
    unfold head
    exact ((((Text.avoids_of_tails (by decide +kernel)).append inTitle).append
      (Text.avoids_of_tails (by decide +kernel))).append inStyle).append
      (Text.avoids_of_tails (by decide +kernel))

end Page

/-- Between the first tag that opens a block of code and the next one that closes it stand spans
that follow each other and no other tag; without their tags, and with the entities read back, it is
the highlighted text. -/
theorem highlight_decodes (text : Text) (standalone : Bool) (title : Text) :
    ∃ before behind part after,
      Text.cutAt? Page.codeStart (Text.highlight text standalone title) = some (before, behind) ∧
      Text.cutAt? Page.codeEnd behind = some (part, after) ∧
      Page.takesTurns false part = true ∧
      Text.replaceMarks Page.entities 0 (Text.replaceMarks Page.spanTags 0 part) = text := by
  refine ⟨Page.preface standalone title, _, (Text.tokens text).flatMap Page.token, _, ?_,
    Text.cutAt?_of_avoids (by decide) (Page.avoids_tokens _) (Page.postscript standalone),
    Page.takesTurns_tokens _, ?_⟩
  · rw [Page.highlight_eq]
    exact Text.cutAt?_of_avoids (by decide) (Page.avoids_preface standalone title) _
  · rw [Page.replaceMarks_tokens, Page.replaceMarks_escape]
    exact Token.flatMap_text_scan {} 0 text

end AsnLayout
