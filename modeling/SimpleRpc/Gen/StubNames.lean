import Mathlib
import SimpleRpc.Gen.Stubs

/-!
# Names in the Generated Stubs

Names of the user, names that the generators number (`in_%d`, `out_%d`, `in%d`), and names of
the generators that `forbid_reserved_names` keeps apart from them.

## Main results

- `Symbol.not_reserved`, `mangle_not_reserved`: no name of the user is one of the generator,
  also not after Python has rewritten it
- `ne_upper`, `mangle_ne_upper`: names with a letter in lower case are no constants
-/

namespace SimpleRpc.Gen

/-! ## Reserved names -/

theorem Symbol.not_reserved (s : Symbol) : isReserved s.val = false := by
  have hallowed := s.allowed
  unfold forbidReservedNames at hallowed
  split at hallowed
  · cases hallowed
  · rename_i hres
    exact Bool.not_eq_true _ ▸ hres

theorem inVar_injective : Function.Injective inVar := fun _ _ h =>
  Nat.repr_injective ((String.append_right_inj "in_").mp h)

theorem outVar_injective : Function.Injective outVar := fun _ _ h =>
  Nat.repr_injective ((String.append_right_inj "out_").mp h)

/-- Names that start differently are different. -/
theorem ne_of_head {s t : String} (h : s.toList.head? ≠ t.toList.head?) : s ≠ t := fun heq =>
  h (heq ▸ rfl)

theorem inVar_head (i : Nat) : (inVar i).toList.head? = some 'i' := by
  simp [inVar, String.toList_append]

theorem outVar_head (i : Nat) : (outVar i).toList.head? = some 'o' := by
  simp [outVar, String.toList_append]

theorem pyInVar_head (i : Nat) : (pyInVar i).toList.head? = some 'i' := by
  simp [pyInVar, String.toList_append]

theorem not_reserved_of_head {s : String} (h : s.toList.head? ≠ some '_') :
    isReserved s = false := by
  unfold isReserved
  split
  · rename_i heq
    simp [heq] at h
  · rfl

/-- A reserved name ends in two underscores. -/
theorem not_reserved_of_end {s : String} (h : s.toList.reverse.take 2 ≠ ['_', '_']) :
    isReserved s = false := by
  unfold isReserved
  split
  · rename_i rest heq
    split
    · rename_i mid hrev
      refine absurd ?_ h
      simp [heq, hrev]
    · rfl
  · rfl

/-- A name in upper case has no lower case letter. -/
theorem lower_notMem_upper {c : Char} (hc : c.isLower = true) (name : String) :
    c ∉ (upper name).toList := by
  intro hmem
  rw [upper, String.toList_ofList] at hmem
  obtain ⟨d, -, rfl⟩ := List.mem_map.mp hmem
  rw [Char.isLower_toUpper_eq_false] at hc
  cases hc

theorem ne_upper {s : String} {c : Char} (hc : c.isLower = true) (hmem : c ∈ s.toList)
    (name : String) : s ≠ upper name := by
  rintro rfl
  exact lower_notMem_upper hc name hmem

theorem wrapperName_ne_upper (func : ServiceFunction) (name : String) :
    wrapperName func ≠ upper name := by
  refine ne_upper (c := 'w') (by decide) ?_ name
  simp [wrapperName, String.toList_append]

theorem wrapperName_inj {f g : ServiceFunction} (h : wrapperName f = wrapperName g) :
    f.name.val = g.name.val := by
  simpa [wrapperName, String.append_assoc] using h

/-! ### Names of the classes -/

theorem serviceClass_getLast (service : ServiceDecl) :
    (serviceClass service).toList.getLast? = some 'e' := by
  simp [serviceClass, String.toList_append]

theorem serviceClass_ne {service : ServiceDecl} {s : String} (h : s.toList.getLast? ≠ some 'e') :
    serviceClass service ≠ s := by
  rintro rfl
  exact h (serviceClass_getLast service)

/-! ### Private names -/

theorem mangle_of_not_private {name : String} (h : isPrivate name = false) (cls : String) :
    mangle cls name = name := by
  rw [mangle, h]
  rfl

theorem mangle_of_private {name : String} (h : isPrivate name = true) (cls : String) :
    mangle cls name = "_" ++ String.ofList (cls.toList.dropWhile (· == '_')) ++ name := by
  rw [mangle, h]
  rfl

/-- Python's rewriting does not lead into the reserved names. -/
theorem mangle_not_reserved {name : String} (h : isReserved name = false) (cls : String) :
    isReserved (mangle cls name) = false := by
  cases hpriv : isPrivate name with
  | false => rwa [mangle_of_not_private hpriv]
  | true =>
    rw [mangle_of_private hpriv]
    have hends := hpriv
    simp only [isPrivate, Bool.and_eq_true, beq_iff_eq, bne_iff_ne, ne_eq] at hends
    have hlen : 2 ≤ name.toList.reverse.length := by
      have := congrArg List.length hends.1
      simp only [List.length_take, List.length_cons, List.length_nil] at this
      rw [List.length_reverse]
      omega
    refine not_reserved_of_end ?_
    rw [String.toList_append, List.reverse_append, List.take_append_of_le_length hlen]
    exact hends.2

theorem mem_dropWhile_append (cls suffix : String) {c : Char} (hmem : c ∈ suffix.toList)
    (hhead : suffix.toList.head? ≠ some '_') :
    c ∈ (cls ++ suffix).toList.dropWhile (· == '_') := by
  rw [String.toList_append, List.dropWhile_append]
  split
  · rwa [List.dropWhile_beq_eq_self_of_head?_ne hhead]
  · exact List.mem_append_right _ hmem

/-- A rewritten name keeps the letters that end the name of the class. -/
theorem mangle_ne_upper {name : String} (hpriv : isPrivate name = true) (cls suffix : String)
    {c : Char} (hc : c.isLower = true) (hmem : c ∈ suffix.toList)
    (hhead : suffix.toList.head? ≠ some '_') (t : String) :
    mangle (cls ++ suffix) name ≠ upper t := by
  refine ne_upper hc ?_ t
  rw [mangle_of_private hpriv, String.toList_append, String.toList_append]
  refine List.mem_append_left _ (List.mem_append_right _ ?_)
  rw [String.toList_ofList]
  exact mem_dropWhile_append cls suffix hmem hhead

end SimpleRpc.Gen
