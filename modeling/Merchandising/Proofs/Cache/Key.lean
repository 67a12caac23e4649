/-
  The texts of cache keys.

  * `append_part_inj`: no bar stands in a number, so the last number of a text can be taken off it;
  * `CacheKey.text_inj`: keys with one text are equal, whatever is in the name of their function;
  * `Digest.length_sha256Hex`: all digests are equally long, so that the digest can be taken off a
    storage key, whatever stands in front of it;
  * `CacheKey.storageKey_inj`: keys with one storage key are equal, unless the digests of their
    texts collide;
  * `CacheKey.storageKey_eq_iff`: both together.
-/
import Mathlib.Data.List.Nodup
import Merchandising.Cache.Key

namespace Merchandising

namespace Decimal

theorem digits_inj {m n : Nat} (h : digits m = digits n) : m = n := by
  rw [← @Nat.ofDigitChars_ten_toDigits m, ← @Nat.ofDigitChars_ten_toDigits n]
  exact congrArg (Nat.ofDigitChars 10 · 0) h

theorem bar_notMem_digits (n : Nat) : '|' ∉ digits n := by
  intro h
  have : '|'.isDigit = true := Nat.isDigit_of_mem_toDigits (by decide) (by decide) h
  simp at this

end Decimal

namespace Digest

theorem length_bigEndian (count n : Nat) : (bigEndian count n).length = count := by
  simp [bigEndian]

theorem length_hex (bytes : List UInt8) : (hex bytes).length = 2 * bytes.length := by
  induction bytes with
  | nil => rfl
  | cons b r ih =>
    have hcons : hex (b :: r) =
        Nat.digitChar (b.toNat / 16) :: Nat.digitChar (b.toNat % 16) :: hex r := rfl
    rw [hcons, List.length_cons, List.length_cons, List.length_cons, ih]
    omega

/-- A digest has eight words of four bytes, whatever the message. -/
theorem length_sha256 (message : List UInt8) : (sha256 message).length = 32 := by
  simp [sha256, State.words, length_bigEndian]

theorem length_sha256Hex (s : String) : (sha256Hex s).toList.length = 64 := by
  rw [sha256Hex, String.toList_ofList, length_hex, length_sha256]

end Digest

namespace CacheKey

/-- The part behind the last bar can be taken off. -/
theorem append_part_inj {cs cs' : List Char} {m n : Nat} (h : cs ++ part m = cs' ++ part n) :
    cs = cs' ∧ m = n := by
  have hlast : ∀ (cs : List Char) (n : Nat),
      (cs ++ part n).reverse = (Decimal.digits n).reverse ++ '|' :: cs.reverse := by
    intro cs n
    rw [part, List.reverse_append, List.reverse_cons, List.append_assoc, List.singleton_append]
  have hdigits : ∀ n, ∀ c ∈ (Decimal.digits n).reverse, decide (c ≠ '|') = true := by
    intro n c hc
    have : c ≠ '|' := fun h => Decimal.bar_notMem_digits n (h ▸ List.mem_reverse.1 hc)
    simpa using this
  have h := congrArg List.reverse h
  rw [hlast, hlast] at h
  have htake := congrArg (List.takeWhile (· ≠ '|')) h
  have hdrop := congrArg (List.dropWhile (· ≠ '|')) h
  rw [List.takeWhile_append_of_pos (hdigits m), List.takeWhile_append_of_pos (hdigits n)] at htake
  rw [List.dropWhile_append_of_pos (hdigits m), List.dropWhile_append_of_pos (hdigits n)] at hdrop
  exact ⟨List.reverse_inj.1 (by simpa using hdrop),
    Decimal.digits_inj (List.reverse_inj.1 (by simpa using htake))⟩

/-- Keys with one text are equal. -/
theorem text_inj {k k' : CacheKey} (h : k.text = k'.text) : k = k' := by
  have hlist : ∀ k : CacheKey, k.text.toList = k.function.toList ++ part k.store.toNat ++
      part k.category.toNat ++ part k.group.toNat ++ part k.hidesDisabled.toNat := by
    intro k
    simp [text, String.toList_append]
  have h : k.text.toList = k'.text.toList := congrArg String.toList h
  rw [hlist, hlist] at h
  obtain ⟨h, hhides⟩ := append_part_inj h
  obtain ⟨h, hgroup⟩ := append_part_inj h
  obtain ⟨h, hcategory⟩ := append_part_inj h
  obtain ⟨h, hstore⟩ := append_part_inj h
  have hbool : ∀ a b : Bool, a.toNat = b.toNat → a = b := by decide
  cases k
  cases k'
  simp only [mk.injEq]
  exact ⟨String.toList_inj.1 h, UInt32.toNat_inj.1 hstore, UInt64.toNat_inj.1 hcategory,
    UInt32.toNat_inj.1 hgroup, hbool _ _ hhides⟩

/-- The digests of the texts of two keys collide only if the texts are equal. -/
def NoCollision (k k' : CacheKey) : Prop :=
  Digest.sha256Hex k.text = Digest.sha256Hex k'.text → k.text = k'.text

/-- Keys from a list whose digests are all different do not collide. -/
theorem NoCollision.of_nodup {keys : List CacheKey}
    (hdigests : (keys.map fun k => Digest.sha256Hex k.text).Nodup) {k k' : CacheKey}
    (hk : k ∈ keys) (hk' : k' ∈ keys) : NoCollision k k' :=
  fun hdigest => congrArg text (List.inj_on_of_nodup_map hdigests hk hk' hdigest)

/-- Keys with one storage key are equal, unless their digests collide. -/
theorem storageKey_inj {k k' : CacheKey} (hc : NoCollision k k')
    (h : k.storageKey = k'.storageKey) : k = k' := by
  have hlist : ∀ k : CacheKey, k.storageKey.toList =
      (k.function ++ ":").toList ++ (Digest.sha256Hex k.text).toList := by
    intro k
    rw [storageKey, String.toList_append]
  have h := congrArg String.toList h
  rw [hlist, hlist] at h
  have hlength : (Digest.sha256Hex k.text).toList.length =
      (Digest.sha256Hex k'.text).toList.length := by
    rw [Digest.length_sha256Hex, Digest.length_sha256Hex]
  exact text_inj (hc (String.toList_inj.1 (List.append_inj_right' h hlength)))

/-- **Different keys never share a storage key.**  Their texts are different, whatever is in the
    names of their functions; and so are their storage keys, unless the digests of the two texts
    collide. -/
theorem storageKey_eq_iff (k k' : CacheKey) :
    (k.text = k'.text ↔ k = k') ∧
      (NoCollision k k' → (k.storageKey = k'.storageKey ↔ k = k')) := by
  exact ⟨⟨text_inj, congrArg text⟩, fun hc => ⟨storageKey_inj hc, congrArg storageKey⟩⟩

/-- A key with a bar and a digit in the name of its function, and one whose store takes their place:
    the texts agree up to the fourth bar. -/
theorem storageKey_eq_iff_bars :
    let k : CacheKey := ⟨"f|1", 2, 3, 4, true⟩
    let k' : CacheKey := ⟨"f", 1, 2, 3, true⟩
    NoCollision k k' ∧ k.text ≠ k'.text ∧ k.storageKey ≠ k'.storageKey := by
  intro k k'
  have hne : k ≠ k' := by decide
  have hdigests : Digest.sha256Hex k.text ≠ Digest.sha256Hex k'.text := by decide +kernel
  have hc : NoCollision k k' := fun h => absurd h hdigests
  exact ⟨hc, fun h => hne ((storageKey_eq_iff k k').1.1 h),
    fun h => hne (((storageKey_eq_iff k k').2 hc).1 h)⟩

end CacheKey

end Merchandising
