import Lab1.MemDb.Equiv.Schema

/-!
# Type names

`getTypSzByStr` compares as many bytes with each of the six names as the client says that its
type name has, and `handle_create` gives it this number as an `unsigned short`.  So a name is
recognised as soon as its first bytes are those at one of the literals in the program image
(`getTypSzByStr_eq_bad_iff`): a part of a name is taken for the name, and a text of 65536 bytes for
an empty one.
-/

namespace Lab1.MemDb

/-! ### The property -/

/-- What `getTypSzByStr` is to compare when the client's type name is `t`. -/
def comparedBytes (t : List UInt8) : List UInt8 := t.take (u16 t.length)

/-- The six names, and no other text, are recognised as what they are. -/
structure RecognisedExactly (tgt : Target) (t : List UInt8) (oTyp : ColTyp) : Prop where
  known : ∀ ty, t = typeBytes ty → getTypSzByStr tgt (comparedBytes t) oTyp
    = (if ty = .VCR then 4 else gTypeRef tgt ty, ty)
  unknown : (∀ ty, t ≠ typeBytes ty) → getTypSzByStr tgt (comparedBytes t) oTyp = (badTypSz, oTyp)

/-! ### What is compared -/

theorem comparedBytes_typeBytes (ty : ColTyp) : comparedBytes (typeBytes ty) = typeBytes ty := by
  cases ty with
  | INT => rfl
  | LONG => rfl
  | LLONG => rfl
  | FLOAT => rfl
  | DOUBLE => rfl
  | VCR => rfl

/-- A text is not recognised when the bytes at none of the six literals start with it. -/
theorem getTypSzByStr_eq_bad_iff (tgt : Target) (bs : List UInt8) (oTyp : ColTyp) :
    getTypSzByStr tgt bs oTyp = (badTypSz, oTyp) ↔
      ∀ ty, tgt.isLit bs (typeName ty) = false := by
  have hlong : tgt.sizeofLong ≠ badTypSz := msgTypSz_ne_bad tgt .LONG
  have hne : ∀ {n : ℕ} {ty : ColTyp}, n ≠ badTypSz → (n, ty) ≠ (badTypSz, oTyp) :=
    fun hn h => hn (congrArg Prod.fst h)
  unfold getTypSzByStr
  constructor
  · intro h
    split_ifs at h with hint hfloat hlit hdouble hllong hvarc
    · exact absurd h (hne (by decide))
    · exact absurd h (hne (by decide))
    · exact absurd h (hne hlong)
    · exact absurd h (hne (by decide))
    · exact absurd h (hne (by decide))
    · exact absurd h (hne (by decide))
    · intro ty
      cases ty with
      | INT => exact Bool.eq_false_iff.mpr hint
      | LONG => exact Bool.eq_false_iff.mpr hlit
      | LLONG => exact Bool.eq_false_iff.mpr hllong
      | FLOAT => exact Bool.eq_false_iff.mpr hfloat
      | DOUBLE => exact Bool.eq_false_iff.mpr hdouble
      | VCR => exact Bool.eq_false_iff.mpr hvarc
  · intro h
    have h := fun ty => Bool.eq_false_iff.mp (h ty)
    refine (if_neg (h .INT)).trans ?_
    refine (if_neg (h .FLOAT)).trans ?_
    refine (if_neg (h .LONG)).trans ?_
    refine (if_neg (h .DOUBLE)).trans ?_
    refine (if_neg (h .LLONG)).trans ?_
    exact if_neg (h .VCR)

/-- **Type names.**  A text is recognised for what it is if and only if it is one of the six names,
or the bytes at none of the six literals start with the bytes compared. -/
theorem recognisedExactly_iff (tgt : Target) (t : List UInt8) (oTyp : ColTyp) :
    RecognisedExactly tgt t oTyp ↔
      (∃ ty, t = typeBytes ty) ∨ ∀ ty, tgt.isLit (comparedBytes t) (typeName ty) = false := by
  rw [← getTypSzByStr_eq_bad_iff tgt (comparedBytes t) oTyp]
  constructor
  · intro h
    by_cases hname : ∃ ty, t = typeBytes ty
    · exact Or.inl hname
    · exact Or.inr (h.unknown (not_exists.mp hname))
  · intro h
    refine ⟨?_, fun hunknown => h.resolve_left (not_exists.mpr hunknown)⟩
    rintro ty rfl
    rw [comparedBytes_typeBytes, getTypSzByStr_typeBytes]

/-- The two bytes `in` are taken for `int`. -/
theorem not_recognisedExactly_in : ¬RecognisedExactly lp64 [0x69, 0x6e] .VCR := by
  intro h
  have hbad := h.unknown fun ty => by
    cases ty <;> decide
  have hsz : 4 = badTypSz := congrArg Prod.fst hbad
  exact absurd hsz (by decide)

end Lab1.MemDb
