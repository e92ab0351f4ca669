import LRJS.Library.LittleEndian
import Mathlib.Data.List.Basic

/-!
# Fields of a fixed width

Numbers one behind the other, each in as many bytes as its field is wide.
-/

namespace FixedFields

open LittleEndian

theorem get_take_lt (width : Nat) (bytes : List UInt8) : get (bytes.take width) < 256 ^ width := by
  have small := get_lt (bytes.take width)
  have short : (bytes.take width).length ≤ width := List.length_take_le ..
  exact Nat.lt_of_lt_of_le small (Nat.pow_le_pow_right (by decide) short)

theorem put_get_take {width : Nat} {bytes : List UInt8} (enough : width ≤ bytes.length) :
    put width (get (bytes.take width)) = bytes.take width := by
  have whole : (bytes.take width).length = width := List.length_take_of_le enough
  nth_rewrite 1 [← whole]
  exact put_get _

def putFields (fields : List (Nat × Nat)) : List UInt8 :=
  fields.flatMap fun field => put field.1 field.2

def getFields : List Nat → List UInt8 → List Nat
  | [], _ => []
  | width :: widths, bytes => get (bytes.take width) :: getFields widths (bytes.drop width)

theorem getFields_putFields (fields : List (Nat × Nat)) (rest : List UInt8) :
    getFields (fields.map Prod.fst) (putFields fields ++ rest) =
      fields.map fun field => field.2 % 256 ^ field.1 := by
  induction fields with
  | nil => rfl
  | cons field fields ih =>
    have bytes : putFields (field :: fields) ++ rest =
        put field.1 field.2 ++ (putFields fields ++ rest) :=
      List.append_assoc ..
    have width : (put field.1 field.2).length = field.1 := length_put ..
    rw [bytes, List.map_cons, List.map_cons, getFields, List.take_left' width,
      List.drop_left' width, get_put, ih]

end FixedFields
