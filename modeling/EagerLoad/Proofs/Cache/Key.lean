import EagerLoad.Cache.Key
import EagerLoad.Proofs.Text

/-! # What a cache key shows

The digest at the end of a key holds no colon, so a key shows its table and its digest, whatever
characters the table has. -/
namespace EagerLoad

theorem Blake3.colon_notMem_hex (s : String) : ':' ∉ (Blake3.hex s).toList := by
  have digit : ∀ n < 16, Nat.digitChar n ≠ ':' := by decide
  rw [Blake3.hex, String.toList_ofList, List.mem_flatMap]
  rintro ⟨b, -, shown⟩
  have small := b.toNat_lt
  simp only [Blake3.byteDigits, List.mem_cons, List.not_mem_nil, or_false] at shown
  obtain high | low := shown
  · exact digit (b.toNat / 16) (by omega) high.symm
  · exact digit (b.toNat % 16) (by omega) low.symm

namespace CacheKey

theorem derive_inj {space : String} {p q : Plan} {s t : Statement}
    (same : derive space p s = derive space q t) :
    p.table = q.table ∧ Blake3.hex (material p s).text = Blake3.hex (material q t).text := by
  have chars := congrArg String.toList same
  simp only [derive, String.toList_append, List.append_assoc, List.append_cancel_left_eq] at chars
  have cut : p.table.toList ++ ':' :: (Blake3.hex (material p s).text).toList =
      q.table.toList ++ ':' :: (Blake3.hex (material q t).text).toList := by
    simpa using chars
  obtain ⟨tables, digests⟩ := Text.cut_last_inj (Blake3.colon_notMem_hex _)
    (Blake3.colon_notMem_hex _) cut
  exact ⟨String.toList_injective tables, String.toList_injective digests⟩

end CacheKey
end EagerLoad
