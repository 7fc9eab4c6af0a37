import NullabilityCasts.ClassTable.Mismatch
import NullabilityCasts.Proofs.ClassTable.Hierarchy

/-!
# When arguments do not correspond

Two instantiations of one declaration either have as many arguments as each other, or one of them
has none, or their comparison fails. A type is first seen as an instantiation of the declaration it
is compared with; what it has itself for arguments only counts for whether that can be done.
-/

set_option autoImplicit false

namespace NullabilityCasts

namespace Ty

variable {s t : Ty}

theorem zipArguments_of_nil (lacking : s.arguments = [] ∨ t.arguments = []) :
    s.zipArguments t = .ok [] := by
  rcases lacking with lacking | lacking <;> simp [zipArguments, lacking]

theorem zipArguments_of_ne_nil (given : s.arguments ≠ []) (given' : t.arguments ≠ []) :
    s.zipArguments t = if s.arguments.length = t.arguments.length
      then .ok (s.arguments.zip t.arguments)
      else .error ⟨s, t, s.arguments.length, t.arguments.length⟩ := by
  simp [zipArguments, given, given']

theorem zipArguments_fails_iff (given : s.arguments ≠ []) (given' : t.arguments ≠ []) :
    (∃ gap, s.zipArguments t = .error gap) ↔ s.arguments.length ≠ t.arguments.length := by
  rw [zipArguments_of_ne_nil given given']
  by_cases equal : s.arguments.length = t.arguments.length <;> simp [equal]

theorem zipArguments_cases {pairs : List (Ty × Ty)} (zipped : s.zipArguments t = .ok pairs) :
    pairs = [] ∨
      s.arguments.length = t.arguments.length ∧ pairs = s.arguments.zip t.arguments := by
  by_cases lacking : s.arguments = [] ∨ t.arguments = []
  · rw [zipArguments_of_nil lacking] at zipped
    exact .inl (Except.ok.inj zipped).symm
  · obtain ⟨given, given'⟩ := not_or.mp lacking
    rw [zipArguments_of_ne_nil given given'] at zipped
    split at zipped
    · rename_i equal
      exact .inr ⟨equal, (Except.ok.inj zipped).symm⟩
    · cases zipped

end Ty

namespace ClassTable

variable {ct : ClassTable} {source target seen : Ty}

/-- A type seen as an instantiation of the declaration of another type: the type itself if it is
one, else what it is lifted to. -/
def SeenAs (ct : ClassTable) (source target seen : Ty) : Prop :=
  ∃ d d', source.decl? = some d ∧ target.decl? = some d' ∧
    (d.id = d'.id ∧ seen = source ∨ d.id ≠ d'.id ∧ ct.lift? source d' = some seen)

/-- A type that would have to be lifted, but has arguments for some of its parameters only, or more
arguments than parameters. -/
def Misshapen (source target : Ty) : Prop :=
  ∃ d d', source.decl? = some d ∧ target.decl? = some d' ∧ d.id ≠ d'.id ∧
    source.arguments ≠ [] ∧ source.arguments.length ≠ d.arity

theorem correspondingArguments_of_misshapen (misshapen : Misshapen source target) :
    ∃ gap, ct.correspondingArguments source target = .error gap := by
  obtain ⟨d, d', use, use', other, given, incomplete⟩ := misshapen
  obtain ⟨nullable, args, rfl⟩ := Ty.eq_of_decl? use
  obtain ⟨nullable', args', rfl⟩ := Ty.eq_of_decl? use'
  change args ≠ [] at given
  change args.length ≠ d.arity at incomplete
  refine ⟨⟨.declared d nullable args, .declared d' nullable' args', args.length, d.arity⟩, ?_⟩
  simp [correspondingArguments, other, given, incomplete]

section Uses

variable {d d' : Decl} {nullable nullable' : Bool} {args args' : List Ty}

theorem correspondingArguments_of_same (same : d.id = d'.id) :
    ct.correspondingArguments (.declared d nullable args) (.declared d' nullable' args')
      = (Ty.declared d nullable args).zipArguments (.declared d' nullable' args') := by
  simp [correspondingArguments, same]

theorem correspondingArguments_of_other (other : d.id ≠ d'.id)
    (shaped : ¬ Misshapen (.declared d nullable args) (.declared d' nullable' args')) :
    ct.correspondingArguments (.declared d nullable args) (.declared d' nullable' args')
      = match ct.lift? (.declared d nullable args) d' with
        | some lifted => lifted.zipArguments (.declared d' nullable' args')
        | none => .ok [] := by
  have complete : (!args.isEmpty && args.length != d.arity) = false := by
    refine Bool.eq_false_iff.mpr fun incomplete => shaped ⟨d, d', rfl, rfl, other, ?_⟩
    simpa [Ty.arguments] using incomplete
  cases lifted : ct.lift? (.declared d nullable args) d' <;>
    simp [correspondingArguments, other, complete, lifted]

end Uses

theorem correspondingArguments_of_seenAs (seenAs : ct.SeenAs source target seen)
    (shaped : ¬ Misshapen source target) :
    ct.correspondingArguments source target = seen.zipArguments target := by
  obtain ⟨d, d', use, use', ways⟩ := seenAs
  obtain ⟨nullable, args, rfl⟩ := Ty.eq_of_decl? use
  obtain ⟨nullable', args', rfl⟩ := Ty.eq_of_decl? use'
  rcases ways with ⟨same, rfl⟩ | ⟨other, lifted⟩
  · exact correspondingArguments_of_same same
  · rw [correspondingArguments_of_other other shaped, lifted]

/-- Two types are arrays, or the first is seen as an instantiation of the declaration of the other,
or they have no parts that correspond. -/
theorem correspondingArguments_of_unseen (unseen : ∀ seen, ¬ ct.SeenAs source target seen)
    (shaped : ¬ Misshapen source target)
    (arrays : ¬ (source.isArray = true ∧ target.isArray = true)) :
    ct.correspondingArguments source target = .ok [] := by
  cases source with
  | declared d nullable args =>
    cases target with
    | declared d' nullable' args' =>
      have other : d.id ≠ d'.id := fun same => unseen _ ⟨d, d', rfl, rfl, .inl ⟨same, rfl⟩⟩
      rw [correspondingArguments_of_other other shaped]
      cases lifted : ct.lift? (.declared d nullable args) d' with
      | none => rfl
      | some seen => exact absurd ⟨d, d', rfl, rfl, .inr ⟨other, lifted⟩⟩ (unseen seen)
    | _ => rfl
  | array component nullable =>
    cases target with
    | array component' nullable' => exact absurd ⟨rfl, rfl⟩ arrays
    | _ => rfl
  | _ => rfl

theorem correspondingArguments_of_arrays (arrays : source.isArray = true ∧ target.isArray = true) :
    ct.correspondingArguments source target = source.zipArguments target := by
  cases source with
  | array component nullable =>
    cases target with
    | array component' nullable' => rfl
    | _ => cases arrays.2
  | _ => cases arrays.1

theorem correspondingArguments_ok_cases {pairs : List (Ty × Ty)}
    (found : ct.correspondingArguments source target = .ok pairs) :
    pairs = [] ∨ ∃ seen, (ct.SeenAs source target seen ∨
        seen = source ∧ source.isArray = true ∧ target.isArray = true) ∧
      seen.arguments.length = target.arguments.length ∧
      pairs = seen.arguments.zip target.arguments := by
  have shaped : ¬ Misshapen source target := by
    intro misshapen
    obtain ⟨gap, failed⟩ : ∃ gap, ct.correspondingArguments source target = .error gap :=
      correspondingArguments_of_misshapen misshapen
    rw [found] at failed
    cases failed
  by_cases related : ∃ seen, ct.SeenAs source target seen
  · obtain ⟨seen, seenAs⟩ := related
    rw [correspondingArguments_of_seenAs seenAs shaped] at found
    exact (Ty.zipArguments_cases found).imp_right fun zipped => ⟨seen, .inl seenAs, zipped⟩
  · by_cases arrays : source.isArray = true ∧ target.isArray = true
    · rw [correspondingArguments_of_arrays arrays] at found
      exact (Ty.zipArguments_cases found).imp_right fun zipped =>
        ⟨source, .inr ⟨rfl, arrays⟩, zipped⟩
    · rw [correspondingArguments_of_unseen (not_exists.mp related) shaped arrays] at found
      exact .inl (Except.ok.inj found).symm

theorem strict_fails_iff {found : Except ArityGap (List (Ty × Ty))} {gaps : List ArityGap} :
    (∃ violation, (Strictness.strict.pairs found).run gaps = .error violation) ↔
      ∃ gap, found = .error gap := by
  cases found with
  | ok pairs =>
    constructor
    · rintro ⟨violation, ⟨⟩⟩
    · rintro ⟨gap, ⟨⟩⟩
  | error gap => exact ⟨fun _ => ⟨gap, rfl⟩, fun _ => ⟨.arityMismatch gap, rfl⟩⟩

theorem strict_ok_iff {found : Except ArityGap (List (Ty × Ty))} {pairs : List (Ty × Ty)}
    {gaps gaps' : List ArityGap} :
    (Strictness.strict.pairs found).run gaps = .ok (pairs, gaps') ↔
      found = .ok pairs ∧ gaps = gaps' := by
  cases found with
  | ok pairs' =>
    change Except.ok (pairs', gaps) = Except.ok (pairs, gaps') ↔ _
    simp
  | error gap =>
    constructor
    · rintro ⟨⟩
    · rintro ⟨⟨⟩, _⟩

/-- The strict comparison takes the arguments of two types in pairs once the first is seen as an
instantiation of the declaration of the second. It fails if they then differ in number, and comes to
nothing where one of the two has none. -/
theorem strict_pairs_outcome (ct : ClassTable) (source target : Ty) (gaps : List ArityGap) :
    (∀ seen, ct.SeenAs source target seen → seen.arguments ≠ [] → target.arguments ≠ [] →
      ((∃ violation, (Strictness.strict.pairs (ct.correspondingArguments source target)).run gaps
          = .error violation) ↔
        seen.arguments.length ≠ target.arguments.length ∨ Misshapen source target)) ∧
    ((∀ seen, ct.SeenAs source target seen → seen.arguments = [] ∨ target.arguments = []) →
      ¬ Misshapen source target → ¬ (source.isArray = true ∧ target.isArray = true) →
      (Strictness.strict.pairs (ct.correspondingArguments source target)).run gaps
        = .ok ([], gaps)) ∧
    (∀ component nullable component' nullable',
      source = .array component nullable → target = .array component' nullable' →
      (Strictness.strict.pairs (ct.correspondingArguments source target)).run gaps
        = .ok ([(component, component')], gaps)) ∧
    ∀ pairs gaps', (Strictness.strict.pairs (ct.correspondingArguments source target)).run gaps
        = .ok (pairs, gaps') → pairs ≠ [] →
      ∃ seen, (ct.SeenAs source target seen ∨
          seen = source ∧ source.isArray = true ∧ target.isArray = true) ∧
        seen.arguments.length = target.arguments.length ∧
        pairs = seen.arguments.zip target.arguments := by
  refine ⟨?_, ?_, ?_, ?_⟩
  · intro seen seenAs given given'
    rw [strict_fails_iff]
    by_cases misshapen : Misshapen source target
    · exact iff_of_true (correspondingArguments_of_misshapen misshapen) (.inr misshapen)
    · rw [correspondingArguments_of_seenAs seenAs misshapen,
        Ty.zipArguments_fails_iff given given', or_iff_left misshapen]
  · intro lacking shaped arrays
    refine strict_ok_iff.mpr ⟨?_, rfl⟩
    by_cases related : ∃ seen, ct.SeenAs source target seen
    · obtain ⟨seen, seenAs⟩ := related
      rw [correspondingArguments_of_seenAs seenAs shaped]
      exact Ty.zipArguments_of_nil (lacking seen seenAs)
    · exact correspondingArguments_of_unseen (not_exists.mp related) shaped arrays
  · rintro component nullable component' nullable' rfl rfl
    rfl
  · intro pairs gaps' outcome some
    obtain ⟨found, _⟩ := strict_ok_iff.mp outcome
    exact (correspondingArguments_ok_cases found).resolve_left some

end ClassTable

namespace Sample

def stringDecl : Decl := ⟨1, "String", false, []⟩

def listDecl : Decl := ⟨2, "List", false, [⟨0, "E", .parameter, false⟩]⟩

def namesDecl : Decl := ⟨3, "Names", false, []⟩

/-- A class of lists of strings that has no parameter of its own. -/
def names : ClassTable :=
  .ofLists [ClassTable.object, stringDecl, listDecl, namesDecl] [(0, ⟨ClassTable.top, none⟩)]
    [(3, [.of listDecl [.of stringDecl []]])]

/-- A type without arguments is no exception if what it is lifted to has some: as a list, the class
of names has one argument and is compared with two. -/
theorem names_fail_without_arguments :
    let source := Ty.of namesDecl []
    let target := Ty.of listDecl [.of stringDecl [], .of stringDecl []]
    (∃ violation, (Strictness.strict.pairs (names.correspondingArguments source target)).run []
      = .error violation) ∧
    ¬ ∃ seen, names.SeenAs source target seen ∧
      source.arguments ≠ [] ∧ seen.arguments ≠ [] ∧ target.arguments ≠ [] ∧
      (seen.arguments.length ≠ target.arguments.length ∨
        ClassTable.Misshapen source target) := by
  have recorded : names.supertypes namesDecl = [.of listDecl [.of stringDecl []]] := rfl
  have lifted : names.lift? (.of namesDecl []) listDecl
      = some (.of listDecl [.of stringDecl []]) := by
    simp +decide [ClassTable.lift?, ClassTable.findSupertype, Ty.of, recorded,
      Ty.instantiate, Ty.isRaw, Ty.subst, Ty.substAll]
  have seenAs : names.SeenAs (.of namesDecl [])
      (.of listDecl [.of stringDecl [], .of stringDecl []]) (.of listDecl [.of stringDecl []]) :=
    ⟨namesDecl, listDecl, rfl, rfl, .inr ⟨by decide, lifted⟩⟩
  constructor
  · rw [ClassTable.strict_fails_iff, ClassTable.correspondingArguments_of_seenAs seenAs]
    · refine (Ty.zipArguments_fails_iff ?_ ?_).mpr (by decide)
      · exact List.cons_ne_nil _ _
      · exact List.cons_ne_nil _ _
    · rintro ⟨_, _, _, _, _, given, _⟩
      exact given rfl
  · rintro ⟨_, _, given, _⟩
    exact given rfl

end Sample

end NullabilityCasts
