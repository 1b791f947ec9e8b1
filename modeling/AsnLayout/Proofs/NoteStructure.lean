import AsnLayout.Proofs.Notes
import AsnLayout.Proofs.UnfencedLayout

/-!
# Fences of formatted notes

A note is read by its fences, and what is formatted between two of them is read with the note again.
If no row of a schema is a fence, a formatted note has the schemas of the note with their formatted
sources, and the other lines as they were.  A member that is a fence becomes such a row, and the
schema ends there.
-/

set_option autoImplicit false

namespace AsnLayout.Fence

/-! ## Lines of formatted schemas -/

/-- The source of a formatted schema, as it stands between its fences. -/
def formattedSource (configuration : Configuration) (source : Text) : Text :=
  Text.trimEndBy (· = '\n') (Format.text source configuration).result

theorem ofLines_formattedBody (configuration : Configuration) (source : Text) :
    Text.ofLines (formattedBody configuration source) = formattedSource configuration source := by
  unfold formattedBody bodyLines formattedSource
  split
  · rename_i empty
    rw [empty]
    rfl
  · exact Text.ofLines_lines _

theorem mem_lines_of_trimEnd {t line : Text}
    (member : line ∈ Text.lines (Text.trimEndBy (· = '\n') t)) : line ∈ Text.lines t := by
  rw [Text.trimEndBy_eq] at member
  have whole : t.rdropWhile (· = '\n') ++ t.rtakeWhile (· = '\n') = t :=
    List.rdropWhile_append_rtakeWhile
  have newlines : ∀ c ∈ t.rtakeWhile (· = '\n'), c = '\n' := fun c inside => by
    simpa using List.mem_rtakeWhile_imp inside
  rw [← whole]
  cases cut : t.rtakeWhile (· = '\n') with
  | nil => rwa [List.append_nil]
  | cons c rest =>
    rw [cut] at newlines
    rw [newlines c (List.mem_cons_self ..), Text.lines_append_newline]
    exact List.mem_append_left _ member

theorem goesOn_formattedBody {source : Text} (configuration : Configuration)
    (free : Text.UnfencedLines false (Text.lines (Text.unifyNewlines source))) :
    ∀ line ∈ formattedBody configuration source, closes line = false := by
  intro line member
  unfold formattedBody bodyLines at member
  split at member
  · cases member
  · exact Format.goesOn_text configuration free line (mem_lines_of_trimEnd member)

/-! ## Parts with other bodies -/

theorem exists_schema_of_mem {number : Nat} {parts : List Part} {opening closing : Text}
    {body : List Text} (member : .schema opening body closing ∈ parts) :
    ∃ schema ∈ schemasFrom number parts, schema.source = Text.ofLines body := by
  induction parts generalizing number with
  | nil => cases member
  | cons part later ih =>
    rcases List.mem_cons.mp member with rfl | behind
    · rw [schemasFrom_schema]
      exact ⟨_, List.mem_cons_self .., rfl⟩
    · obtain ⟨schema, there, source⟩ := @ih (number + part.lines.length) behind
      refine ⟨schema, ?_, source⟩
      cases part with
      | schema opening body closing => exact List.mem_cons_of_mem _ there
      | line text => exact there
      | unclosed opening body => exact there

/-- Bodies without closing fences leave the parts as they are. -/
theorem Parted.withBody {body : Text → List Text} {foreign : Bool} {parts : List Part}
    (parted : Parted foreign parts)
    (inside : ∀ opening lines closing, .schema opening lines closing ∈ parts →
      ∀ line ∈ body (Text.ofLines lines), closes line = false) :
    Parted foreign (parts.map (withBody body)) := by
  induction parted with
  | done foreign => exact .done foreign
  | line noSchema rest ih =>
    exact .line noSchema (ih fun _ _ _ member => inside _ _ _ (List.mem_cons_of_mem _ member))
  | foreign rest ih =>
    exact .foreign (ih fun _ _ _ member => inside _ _ _ (List.mem_cons_of_mem _ member))
  | schema isOpening _ isClosing rest ih =>
    exact .schema isOpening (inside _ _ _ (List.mem_cons_self ..)) isClosing
      (ih fun _ _ _ member => inside _ _ _ (List.mem_cons_of_mem _ member))
  | unclosed isOpening own => exact .unclosed isOpening own

theorem sources_withBody (body : Text → List Text) (number number' : Nat) (parts : List Part) :
    (schemasFrom number' (parts.map (withBody body))).map (·.source) =
      (schemasFrom number parts).map fun schema => Text.ofLines (body schema.source) := by
  induction parts generalizing number number' with
  | nil => rfl
  | cons part later ih =>
    cases part with
    | schema opening lines closing =>
      rw [List.map_cons, Fence.withBody, schemasFrom_schema, schemasFrom_schema, List.map_cons,
        List.map_cons]
      exact congrArg _ (ih ..)
    | line text => exact ih ..
    | unclosed opening lines => exact ih ..

theorem map_withBody_withBody (body : Text → List Text) (parts : List Part) :
    (parts.map (withBody body)).map (withBody fun _ => []) = parts.map (withBody fun _ => []) := by
  rw [List.map_map]
  refine List.map_congr_left fun part _ => ?_
  cases part <;> rfl

/-! ## Notes -/

/-- The lines of a note outside of its schemas, the fences around these among them. -/
def outerLines (note : Text) : List Text :=
  replaceBodies (schemas note).result (fun _ => []) (Text.lines note)

theorem outerLines_eq (note : Text) :
    outerLines note = ((parts note).map (withBody fun _ => [])).flatMap Part.lines := by
  have whole := @flatMap_rowsAt_schemasFrom (fun _ => []) 0 (parts note)
  rwa [flatMap_lines_parts] at whole

theorem parts_format {note : Text} {configuration : Configuration}
    (inside : ∀ schema ∈ (schemas note).result,
      ∀ line ∈ formattedBody configuration schema.source, closes line = false) :
    parts (format note configuration).result =
      (parts note).map (withBody (formattedBody configuration)) := by
  rw [parts, lines_format]
  refine ((parted_parts note).withBody fun opening body closing member => ?_).partsAt_eq
  obtain ⟨schema, isSchema, source⟩ := @exists_schema_of_mem 0 _ _ _ _ member
  rw [← source]
  exact inside schema isSchema

/-- A note whose schemas have lines that stay between fences keeps its fences when it is formatted:
it has as many schemas as before, each with its formatted source, and the same lines outside. -/
theorem format_keeps_fences (note : Text) (configuration : Configuration)
    (free : ∀ schema ∈ (schemas note).result,
      Text.UnfencedLines false (Text.lines (Text.unifyNewlines schema.source))) :
    let found := (schemas note).result
    let again := (schemas (format note configuration).result).result
    again.length = found.length ∧
      again.map (·.source) = found.map (formattedSource configuration ·.source) ∧
      outerLines (format note configuration).result = outerLines note := by
  intro found again
  have same := parts_format fun schema member =>
    goesOn_formattedBody configuration (free schema member)
  have sources : again.map (·.source) = found.map (formattedSource configuration ·.source) := by
    have bodies := sources_withBody (formattedBody configuration) 0 0 (parts note)
    simp only [ofLines_formattedBody] at bodies
    rwa [← same] at bodies
  have lengths := congrArg List.length sources
  rw [List.length_map, List.length_map] at lengths
  refine ⟨lengths, sources, ?_⟩
  rw [outerLines_eq, outerLines_eq, same, map_withBody_withBody]

/-- Fences in a literal and in comments, and one with a default value behind it. -/
theorem format_keeps_fences_quoted :
    let note := Text.ofLines (["a", "```asn1",
      "A::=SEQUENCE\x7bb IA5String DEFAULT \"```\", -- ```", "``` DEFAULT 1\x7d -* ```", "```", "b",
      "```asn1", "B ::= INTEGER", "```"].map String.toList)
    let again := (schemas (format note .absent).result).result
    (∀ schema ∈ (schemas note).result,
      Text.UnfencedLines false (Text.lines (Text.unifyNewlines schema.source))) ∧
      again.length = 2 ∧
      again.map (·.source) = [Text.ofLines (["A ::= SEQUENCE \x7b",
        "  b IA5String DEFAULT \"```\", -- ```", "  ``` DEFAULT 1",
        "\x7d -* ```"].map String.toList), "B ::= INTEGER".toList] ∧
      outerLines (format note .absent).result =
        ["a", "```asn1", "```", "b", "```asn1", "```"].map String.toList := by
  intro note again
  have free : ∀ schema ∈ (schemas note).result,
      Text.UnfencedLines false (Text.lines (Text.unifyNewlines schema.source)) := by
    decide +kernel
  obtain ⟨lengths, sources, outer⟩ := format_keeps_fences note .absent free
  exact ⟨free, lengths.trans (by decide +kernel), sources.trans (by decide +kernel),
    outer.trans (by decide +kernel)⟩

/-- A member that is a fence is laid out on a line of its own and ends its schema there, and so does
a line that a return ends; the fence of the schema then opens what hides the next one. -/
theorem format_loses_schema :
    let member := Text.ofLines (["```asn1", "A ::= SEQUENCE \x7b a, ``` \x7d", "```", "",
      "```asn1", "B ::= INTEGER", "```"].map String.toList)
    let return' := Text.ofLines (["```asn1", "-* x\r```\r*-", "```", "```asn1", "B ::= INTEGER",
      "```"].map String.toList)
    ∀ note ∈ [member, return'], (schemas note).result.length = 2 ∧
      (schemas (format note .absent).result).result.length = 1 := by
  decide +kernel

end AsnLayout.Fence
