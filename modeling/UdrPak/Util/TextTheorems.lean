import UdrPak.Any.CastTheorems
import UdrPak.Util.WidthTheorems

/-!
# Hexadecimal texts behind a cast to text

A text has the smallest type, so that, as `any.c` says, `to_hex('-1'::any_int::lvarchar::any_int)`
prints `ffff`. Through a text the digits of a negative number in a wider type become fewer.
-/

namespace UdrPak.Util

open Libc Numeral UdrPak.Any

/-- `a::lvarchar::any_int` -/
def viaText (m : Memory) (a : AnyInt) : Outcome AnyInt :=
  (SqlType.lvarchar.ofAny a).bind (·.toAny m)

/-- The number in its smallest type. -/
def shortest (a : TypedInt) : TypedInt := ⟨smallest a.num, a.num, smallest_holds a.holds.int64⟩

section Text

variable {a : TypedInt} {m : Memory}

theorem viaText_toAny (h : ∀ ty : OrigType, ¬ty.Names m.typename.str) :
    viaText m a.toAny = .returned (shortest a).toAny := by
  have htakes : SqlType.lvarchar.Takes a.orig a.num := ⟨a.holds.int64, not_false⟩
  have htext := SqlNum.toAny_datum ⟨.lvarchar, a.num, a.holds.int64⟩ m
  rw [viaText, ofAny_toAny, if_pos htakes, Outcome.bind_returned]
  refine htext.trans ?_
  rw [SqlNum.origType, namedType_str_none_iff.mpr h]
  rfl

theorem hexBits_smallest_le : hexBits (smallest a.num) ≤ hexBits a.orig := by
  have hholds := a.holds
  unfold smallest
  split_ifs with hshort hint
  · obtain ⟨j, hj, -, hbits⟩ := hexBits_eq a.orig
    rw [hbits]
    change 16 ≤ _
    omega
  · cases horig : a.orig <;> simp only [horig, OrigType.Holds] at hholds <;>
      first | decide | omega
  · cases horig : a.orig <;> simp only [horig, OrigType.Holds] at hholds <;>
      first | decide | omega

/-- No digits are in front where the number is not negative, or the types are equally wide. -/
theorem signDigits_append_eq_iff {ty ty' : OrigType} {n : Int} {ds : List Char}
    (h : hexBits ty ≤ hexBits ty') :
    signDigits (hexBits ty) (hexBits ty') n ++ ds = ds ↔ 0 ≤ n ∨ hexBits ty' = hexBits ty := by
  obtain ⟨i, -, -, hbits⟩ := hexBits_eq ty
  obtain ⟨j, -, -, hbits'⟩ := hexBits_eq ty'
  rw [hbits, hbits'] at h ⊢
  rw [List.append_left_eq_self, signDigits]
  split
  · rw [List.replicate_eq_nil_iff]
    omega
  · exact iff_of_true rfl (Or.inl (by omega))

end Text

/-- Through a text and back, both functions print the digits of the smallest type: an `f` less for
every four bits it is narrower by, if the number is negative. The digits stay exactly where the
number is not negative or the type as wide as the smallest one, and a second time nothing changes.
The memory that `any_int_input` finds must not name a type. -/
theorem hex_viaText_iff (a : TypedInt) (m : Memory)
    (h : ∀ ty : OrigType, ¬ty.Names m.typename.str) :
    ∃ b ds ps, viaText m a.toAny = .returned b ∧
      anyToHex (some b) = .returned (some ds) ∧ anyToHex4 (some b) = .returned (some ps) ∧
      anyToHex (some a.toAny) = .returned
        (some (signDigits (hexBits (smallest a.num)) (hexBits a.orig) a.num ++ ds)) ∧
      anyToHex4 (some a.toAny) = .returned
        (some (signDigits (hexBits (smallest a.num)) (hexBits a.orig) a.num ++ ps)) ∧
      (anyToHex (some a.toAny) = anyToHex (some b) ↔
        0 ≤ a.num ∨ hexBits a.orig = hexBits (smallest a.num)) ∧
      ∀ m' : Memory, (∀ ty : OrigType, ¬ty.Names m'.typename.str) →
        viaText m' b = .returned b := by
  obtain ⟨ds, ps, hds, hps⟩ := exists_hex (shortest a)
  obtain ⟨hhex, hhex4⟩ := hex_eq_of_width (shortest a) a rfl hexBits_smallest_le
  rw [hds] at hhex
  rw [hps] at hhex4
  refine ⟨(shortest a).toAny, ds, ps, viaText_toAny h, hds, hps, hhex, hhex4, ?_, ?_⟩
  · rw [hhex, hds]
    simp only [Outcome.map_returned, Option.map_some, Outcome.returned.injEq, Option.some.injEq]
    exact signDigits_append_eq_iff hexBits_smallest_le
  · intro m' h'
    exact viaText_toAny h'

/-- Memory in which `typename` is empty. -/
def zeroedMemory : Memory := ⟨Vector.replicate 32 '\x00', ⟨0, .cShortType⟩⟩

/-- `-1` as an `integer` comes back as a `smallint`, with four digits less. -/
theorem hex_viaText_minus_one : ∃ b ds, viaText zeroedMemory minusOneInteger.toAny = .returned b ∧
    anyToHex (some b) = .returned (some ds) ∧
    anyToHex (some minusOneInteger.toAny) = .returned (some (['f', 'f', 'f', 'f'] ++ ds)) := by
  obtain ⟨b, ds, _, hb, hds, _, hhex, _⟩ := hex_viaText_iff minusOneInteger zeroedMemory
    (namedType_str_none_iff.mp (by decide))
  exact ⟨b, ds, hb, hds, hhex⟩

end UdrPak.Util
