import AsnLayout.Proofs.Reading
import AsnLayout.Proofs.SourceLines

/-!
# Lines of nothing but code

A line without two hyphens and without the sign of a block comment has no comment, and without
quotes it has no literal either: it is read as it stands.
-/

set_option autoImplicit false

namespace AsnLayout

def Text.Uncommented (line : Text) : Prop :=
  isLineComment line = false ∧ startsBlock line = false ∧ (codeLine (trim line)).comment = none

def Text.Bare (line : Text) : Prop := '"' ∉ line ∧ Text.Uncommented line

theorem commentIndex?_eq_none (q : Quoting) (t : Text) (absent : ¬['-', '-'] <:+: t) :
    q.commentIndex? t = none := by
  induction t generalizing q with
  | nil => rfl
  | cons c rest ih =>
    rw [Text.pair_infix_cons, not_or] at absent
    have here : ¬(q.exposes c = true ∧ c = '-' ∧ rest.head? = some '-') := by
      rintro ⟨-, rfl, next⟩
      exact absent.1 ⟨rfl, next⟩
    simp only [Quoting.commentIndex?, Bool.and_eq_true, decide_eq_true_eq, and_assoc, if_neg here,
      ih _ absent.2, Option.map_none]

theorem Text.trim_isInfix (t : Text) : trim t <:+: t := by
  have start : trimStart t <:+ t := List.dropWhile_suffix _
  have stop : ∀ u : Text, trimEnd u <+: u := by
    intro u
    have dropped : u.reverse.dropWhile isBlank <:+ u.reverse := List.dropWhile_suffix _
    rw [← List.reverse_reverse u]
    exact List.reverse_prefix.mpr (by simpa using dropped)
  exact (stop _).isInfix.trans start.isInfix

theorem uncommented_of_infix (line : Text) (noLine : ¬['-', '-'] <:+: line)
    (noBlock : ¬['-', '*'] <:+: line) : line.Uncommented := by
  have starts : ∀ mark : Text, ¬mark <:+: line → Text.startsWith (Text.trim line) mark = false := by
    intro mark none
    rw [Bool.eq_false_iff]
    intro found
    exact none ((List.isPrefixOf_iff_prefix.mp found).isInfix.trans line.trim_isInfix)
  refine ⟨starts _ noLine, starts _ noBlock, ?_⟩
  have absent := commentIndex?_eq_none {} (Text.trim line)
    fun found => noLine (found.trans line.trim_isInfix)
  simp [Text.codeLine, absent]

theorem isRemark_of_bare {line : Text} (bare : line.Bare) : Reader.isRemark false line = false := by
  obtain ⟨-, noComment, noBlock, -⟩ := bare
  simp [Reader.isRemark, noComment, noBlock]

theorem blockAfter_of_bare {line : Text} (bare : line.Bare) :
    LineKind.blockAfter false line = false := by
  obtain ⟨-, -, noBlock, -⟩ := bare
  simp [LineKind.blockAfter, Text.leavesBlockOpen, noBlock]

theorem bare_of_not_mem {line : Text} (unquoted : '"' ∉ line) (noHyphen : '-' ∉ line) :
    line.Bare := by
  refine ⟨unquoted, uncommented_of_infix line ?_ ?_⟩
  · exact fun pair => noHyphen (pair.subset (List.mem_cons_self ..))
  · exact fun pair => noHyphen (pair.subset (List.mem_cons_self ..))

theorem codeLine_of_bare {line : Text} (bare : line.Bare) :
    Text.codeLine (Text.trim line) = ⟨Text.trim line, none⟩ := by
  have none := bare.2.2.2
  unfold Text.codeLine at none ⊢
  split
  · rfl
  · rename_i index found
    rw [found] at none
    cases none

theorem ofLine_of_bare {line : Text} (bare : line.Bare) :
    LineKind.ofLine false line = Text.codeKind (Text.trim line) := by
  have code := isRemark_of_bare bare
  rw [Reader.isRemark] at code
  rw [LineKind.ofLine, code, codeLine_of_bare bare, if_neg (by decide)]

end AsnLayout
