/-
  ExactCalc.Proofs.Bytes — text comes back from its bytes (see `ExactCalc.Bytes`).
-/

import ExactCalc.Bytes

namespace ExactCalc.Bytes

theorem toList_eq (a : ByteArray) : a.toList = a.data.toList := by
  have from_index : ∀ (i : Nat) (r : List UInt8),
      ByteArray.toList.loop a i r = r.reverse ++ a.data.toList.drop i := by
    intro i r
    induction i, r using ByteArray.toList.loop.induct a with
    | case1 i r hlt ih =>
      have hi : i < a.data.toList.length := by simpa using hlt
      have hget : a.get! i = a.data.toList[i] := by
        show a.data[i]! = _
        rw [getElem!_pos a.data i (by simpa using hi), Array.getElem_toList]
      rw [ByteArray.toList.loop, if_pos hlt, ih, List.drop_eq_getElem_cons hi, hget,
        List.reverse_cons, List.append_assoc, List.singleton_append]
    | case2 i r hge =>
      have hi : a.data.toList.length ≤ i := by simpa using hge
      rw [ByteArray.toList.loop, if_neg hge, List.drop_eq_nil_of_le hi, List.append_nil]
  rw [ByteArray.toList, from_index, List.reverse_nil, List.nil_append, List.drop_zero]

@[simp] theorem text?_ofText (s : String) : text? (ofText s) = some s := by
  have hbytes : ByteArray.mk (ofText s).toArray = s.toByteArray := by
    unfold ofText
    rw [toList_eq, Array.toArray_toList]
    rfl
  rw [text?, hbytes, String.fromUTF8?, dif_pos s.isValidUTF8]
  rfl

end ExactCalc.Bytes
