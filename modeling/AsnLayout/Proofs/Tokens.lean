import AsnLayout.Token
import Mathlib.Data.List.Induction
import Mathlib.Logic.Basic

/-!
# Cutting a text into tokens

A text is cut into tokens without a gap: each token takes as many characters as its kind asks for,
at least one and none behind the end of the text, and the next token starts right behind it.  So the
tokens in front of a token hold the text in front of it, which decides its line and its column.
-/

set_option autoImplicit false

namespace AsnLayout

/-! ## Positions -/

namespace Position

def behind (position : Position) (front : Text) : Position := front.foldl next position

theorem behind_append (position : Position) (front back : Text) :
    position.behind (front ++ back) = (position.behind front).behind back := List.foldl_append

/-- The line behind a text is told by its newlines, the column by the characters behind the last of
them. -/
theorem behind_start (front : Text) :
    behind {} front =
      ⟨1 + front.count '\n', 1 + (front.reverse.takeWhile (· ≠ '\n')).length⟩ := by
  induction front using List.reverseRecOn with
  | nil => rfl
  | append_singleton front c ih =>
    rw [behind_append, ih, List.count_append, List.reverse_append, List.reverse_singleton,
      List.singleton_append]
    by_cases newline : c = '\n'
    · subst newline
      rfl
    · have counted : List.count '\n' [c] = 0 := by simp [newline]
      rw [List.takeWhile_cons_of_pos (by simpa using newline), List.length_cons, counted,
        ← Nat.add_assoc]
      exact if_neg newline

end Position

/-! ## Lengths -/

namespace Lexeme

theorem blockLength_le (t : Text) : blockLength t ≤ t.length := by
  fun_induction blockLength t with
  | case1 => exact Nat.le_refl _
  | case2 rest => simp
  | case3 c rest other ih => exact Nat.succ_le_succ ih

theorem stringLength_le (t : Text) : stringLength t ≤ t.length := by
  fun_induction stringLength t with
  | case1 => exact Nat.le_refl _
  | case2 => exact Nat.le_refl _
  | case3 rest some ih => exact Nat.add_le_add_right ih 2
  | case4 rest ih => exact Nat.add_le_add_right ih 2
  | case5 rest => exact Nat.succ_le_succ (Nat.zero_le _)
  | case6 c rest _ _ _ _ ih => exact Nat.succ_le_succ ih

theorem nameLength_le (t : Text) : nameLength t ≤ t.length := by
  induction t with
  | nil => exact Nat.le_refl _
  | cons c rest ih =>
    rw [nameLength]
    split
    · exact Nat.succ_le_succ ih
    · exact Nat.zero_le _

theorem runLength_le (test : Char → Bool) (t : Text) : runLength test t ≤ t.length :=
  (List.takeWhile_prefix test).length_le

theorem numberLength_le (t : Text) : numberLength t ≤ t.length := by
  have whole := runLength_le Text.isDigit t
  unfold numberLength
  simp only
  split
  · rename_i rest point
    have cut := congrArg List.length point
    rw [List.length_drop, List.length_cons] at cut
    have fraction := runLength_le Text.isDigit rest
    split
    · omega
    · exact whole
  · exact whole

theorem tagLength?_le {t : Text} {count : Nat} (tag : tagLength? t = some count) :
    count ≤ t.length := by
  unfold tagLength? at tag
  simp only at tag
  split at tag
  · split at tag
    · cases tag
      exact Nat.sub_le _ _
    · cases tag
  · cases tag

theorem kind_nameKind (name : Text) : nameKind name ≠ .finish := by
  unfold nameKind
  split <;> nofun

/-- No token but the last stands for the end of the text, and none reaches behind it. -/
theorem next_proper (c : Char) (rest : Text) :
    (next c rest).1 ≠ .finish ∧ (next c rest).2 ≤ rest.length := by
  let Proper (token : TokenKind × Nat) : Prop := token.1 ≠ .finish ∧ token.2 ≤ rest.length
  have starts : ∀ mark : Text, Text.startsWith rest mark = true → mark.length ≤ rest.length :=
    fun mark found => (List.isPrefixOf_iff_prefix.mp found).length_le
  change Proper (next c rest)
  unfold next
  refine iteInduction (fun _ => ?newline) fun _ => iteInduction (fun _ => ?space) fun _ =>
    iteInduction (fun _ => ?line) fun _ => iteInduction (fun opens => ?block) fun _ =>
    iteInduction (fun _ => ?string) fun _ => iteInduction (fun tag => ?tag) fun _ =>
    iteInduction (fun sign => ?sign) fun _ => iteInduction (fun dots => ?dots) fun _ =>
    iteInduction (fun dots => ?range) fun _ => iteInduction (fun _ => ?number) fun _ =>
    iteInduction (fun _ => ?name) fun _ => iteInduction (fun _ => ?mark) fun _ => ?other
  case newline => exact ⟨nofun, Nat.zero_le _⟩
  case space => exact ⟨nofun, runLength_le _ _⟩
  case line => exact ⟨nofun, runLength_le _ _⟩
  case block =>
    refine ⟨nofun, ?_⟩
    cases rest with
    | nil => exact absurd opens.2 nofun
    | cons d rest => exact Nat.succ_le_succ (blockLength_le rest)
  case string => exact ⟨nofun, stringLength_le _⟩
  case tag =>
    obtain ⟨count, found⟩ := Option.isSome_iff_exists.mp tag.2
    refine ⟨nofun, ?_⟩
    rw [found]
    exact tagLength?_le found
  case sign => exact ⟨nofun, starts _ sign.2⟩
  case dots => exact ⟨nofun, starts _ dots.2⟩
  case range => exact ⟨nofun, starts _ dots.2⟩
  case number => exact ⟨nofun, Nat.sub_le_of_le_add (numberLength_le (c :: rest))⟩
  case name => exact ⟨kind_nameKind _, nameLength_le _⟩
  case mark => exact ⟨nofun, Nat.zero_le _⟩
  case other => exact ⟨nofun, Nat.zero_le _⟩

end Lexeme

/-! ## Cutting a text -/

namespace Token

inductive Cuts : Position → Text → List Token → Prop where
  | finish (position : Position) : Cuts position [] [⟨.finish, [], position⟩]
  | token {position : Position} {c : Char} {own back : Text} {tokens : List Token}
      (count : (Lexeme.next c (own ++ back)).2 = own.length)
      (later : Cuts (position.behind (c :: own)) back tokens) :
      Cuts position (c :: (own ++ back))
        (⟨(Lexeme.next c (own ++ back)).1, c :: own, position⟩ :: tokens)

theorem scan_skip (position : Position) (own back : Text) :
    scan position own.length (own ++ back) = scan (position.behind own) 0 back := by
  induction own generalizing position with
  | nil => rfl
  | cons c own ih => exact ih (position.next c)

theorem scan_cons (position : Position) (c : Char) (rest : Text) :
    scan position 0 (c :: rest) =
      ⟨(Lexeme.next c rest).1, c :: rest.take (Lexeme.next c rest).2, position⟩ ::
        scan (position.next c) (Lexeme.next c rest).2 rest := rfl

theorem cuts_scan (position : Position) (text : Text) : Cuts position text (scan position 0 text) :=
  match text with
  | [] => .finish position
  | c :: rest => by
    obtain ⟨own, back, cut, count⟩ :
        ∃ own back, rest = own ++ back ∧ (Lexeme.next c rest).2 = own.length :=
      ⟨_, _, (List.take_append_drop _ rest).symm,
        (List.length_take_of_le (Lexeme.next_proper c rest).2).symm⟩
    have later := cuts_scan (position.behind (c :: own)) back
    subst cut
    rw [scan_cons, count, List.take_left, scan_skip]
    exact .token count later
termination_by text.length
decreasing_by
  rw [cut, List.length_cons, List.length_append]
  omega

variable {position : Position} {text : Text} {tokens before after : List Token} {token : Token}

theorem Cuts.exists_finish (cuts : Cuts position text tokens) :
    ∃ front last, tokens = front ++ [⟨.finish, [], last⟩] ∧
      ∀ token ∈ front, token.kind ≠ .finish ∧ token.text ≠ [] := by
  induction cuts with
  | finish position => exact ⟨[], position, rfl, nofun⟩
  | @token _ c own back _ count later ih =>
    obtain ⟨front, last, rfl, proper⟩ := ih
    exact ⟨_ :: front, last, rfl,
      List.forall_mem_cons.mpr ⟨⟨(Lexeme.next_proper c _).1, List.cons_ne_nil _ _⟩, proper⟩⟩

theorem Cuts.drop (cuts : Cuts position text (before ++ token :: after)) :
    ∃ back, text = before.flatMap Token.text ++ back ∧
      Cuts (position.behind (before.flatMap Token.text)) back (token :: after) := by
  induction before generalizing position text with
  | nil => exact ⟨text, rfl, cuts⟩
  | cons first others ih =>
    generalize behind : others ++ token :: after = tokens at cuts ih
    rw [List.cons_append, behind] at cuts
    cases cuts with
    | finish => simp at behind
    | @token _ c own back _ count later =>
      subst behind
      obtain ⟨rest, rfl, cuts⟩ := ih later
      refine ⟨rest, ?_, ?_⟩
      · rw [List.flatMap_cons, List.cons_append, List.cons_append, List.append_assoc]
      · rw [List.flatMap_cons, Position.behind_append]
        exact cuts

end Token

/-- A text is cut into tokens without a gap.  The last token, and no other, stands for the end of
the text; each token starts right behind those before it, on the line and in the column that the
text of those tells; and any other token has as many characters as its kind asks for. -/
theorem tokens_lossless (text : Text) :
    (∃ tokens position, Text.tokens text = tokens ++ [⟨.finish, [], position⟩] ∧
      ∀ token ∈ tokens, token.kind ≠ .finish ∧ token.text ≠ []) ∧
    (Text.tokens text).flatMap Token.text = text ∧
    ∀ before token after, Text.tokens text = before ++ token :: after →
      let front := before.flatMap Token.text
      token.position.line = 1 + front.count '\n' ∧
        token.position.column = 1 + (front.reverse.takeWhile (· ≠ '\n')).length ∧
        (token.kind ≠ .finish → ∃ c rest, text = front ++ c :: rest ∧
          Lexeme.next c rest = (token.kind, token.text.length - 1) ∧
          token.text.length ≤ (c :: rest).length) := by
  have cuts : Token.Cuts {} text (Text.tokens text) := Token.cuts_scan {} text
  refine ⟨cuts.exists_finish, Token.flatMap_text_scan {} 0 text, fun before token after split => ?_⟩
  rw [split] at cuts
  obtain ⟨back, rfl, behind⟩ := cuts.drop
  rw [Position.behind_start] at behind
  cases behind with
  | finish => exact ⟨rfl, rfl, fun other => absurd rfl other⟩
  | @token _ c own rest _ count later =>
    refine ⟨rfl, rfl, fun _ => ⟨c, own ++ rest, rfl, Prod.ext rfl count, ?_⟩⟩
    rw [List.length_cons, List.length_cons, List.length_append]
    omega

example : (Text.tokens "-* a\n*- [1]".toList).map (fun token => (token.kind, token.position)) =
    [(.comment, ⟨1, 1⟩), (.whitespace, ⟨2, 3⟩), (.tag, ⟨2, 4⟩), (.finish, ⟨2, 7⟩)] := by
  decide +kernel

end AsnLayout
