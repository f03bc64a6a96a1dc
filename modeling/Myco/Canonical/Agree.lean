import Myco.Canonical.Meaning
import Myco.Canonical.RoundTrip

/-!
# Where the Rust and the Python decoder agree

Both accept the trees of one grammar and differ in how they read a varint: Rust keeps the low 64
bits of what Python reads in full. They also differ in which entry of a repeated name they keep.
`decoders_agree_iff`: these two are the only differences.
-/

namespace Myco.Canonical

open Myco.Lib

/-- Rust accepts what Python accepts, and where both do the values mean the same. -/
def DecodersAgree (b : Bytes) : Prop :=
  ((∃ v, decode b = .ok v) ↔ ∃ p, Py.decode b = .ok p) ∧
    ∀ v p, decode b = .ok v → Py.decode b = .ok p → v.denote = p.denote

theorem u64Varint_of_fits {l : Leb} (h : FitsU64 l) : u64Varint l = Py.varint l := by
  rw [u64Varint, Py.varint, Nat.mod_eq_of_lt h]

variable {b : Bytes} {t : Tlv}

/-- What Python accepts announces no more than the input holds, so Rust reads it alike. -/
theorem Spells.fits_of_py (hb : b.length ≤ isizeMax) (h : Spells Py.varint b t) :
    t.Every FitsU64 := by
  refine (h.2.every_le (N := b.length) (by rw [h.1])).imp fun l hl => ?_
  obtain ⟨n, hn, hle⟩ := hl
  unfold Py.varint at hn
  split at hn
  · have heq := Option.some.inj hn
    simp only [isizeMax] at hb
    simp only [FitsU64]
    omega
  · cases hn

theorem Spells.rust_of_py (hf : t.Every FitsU64) (h : Spells Py.varint b t) :
    Spells u64Varint b t :=
  ⟨h.1, h.2.of_reading (hf.imp fun _ hl _ hn => (u64Varint_of_fits hl).trans hn)⟩

theorem Spells.py_of_rust (hf : t.Every FitsU64) (h : Spells u64Varint b t) :
    Spells Py.varint b t :=
  ⟨h.1, h.2.of_reading (hf.imp fun _ hl _ hn => (u64Varint_of_fits hl).symm.trans hn)⟩

/-- The decoders agree on an input if and only if the tree it spells announces no length past a
`u64` and means the same by the first and by the last entry of every name. -/
theorem decoders_agree_iff (hb : b.length ≤ isizeMax) :
    DecodersAgree b ↔ ∀ t, Spells u64Varint b t → t.Every FitsU64 ∧ t.keepFirst = t.keepLast := by
  have hbuf : b.length < 2 ^ 64 := by simp only [isizeMax] at hb; omega
  constructor
  · rintro ⟨hiff, hsame⟩ t ht
    have hv : decode b = .ok t.value := (decode_iff hbuf).2 ⟨t, ht, rfl⟩
    obtain ⟨p, hp⟩ := hiff.1 ⟨_, hv⟩
    obtain ⟨t', ht', rfl⟩ := (Py.decode_iff hbuf).1 hp
    have hf := ht'.fits_of_py hb
    obtain rfl := (ht'.rust_of_py hf).unique ht
    refine ⟨hf, ?_⟩
    rw [← Tlv.denote_pyValue, ← Tlv.denote_value]
    exact (hsame _ _ hv hp).symm
  · intro h
    refine ⟨⟨?_, ?_⟩, ?_⟩
    · rintro ⟨v, hv⟩
      obtain ⟨t, ht, rfl⟩ := (decode_iff hbuf).1 hv
      exact ⟨_, (Py.decode_iff hbuf).2 ⟨t, ht.py_of_rust (h t ht).1, rfl⟩⟩
    · rintro ⟨p, hp⟩
      obtain ⟨t, ht, rfl⟩ := (Py.decode_iff hbuf).1 hp
      exact ⟨_, (decode_iff hbuf).2 ⟨t, ht.rust_of_py (ht.fits_of_py hb), rfl⟩⟩
    · intro v p hv hp
      obtain ⟨t, ht, rfl⟩ := (decode_iff hbuf).1 hv
      obtain ⟨t', ht', rfl⟩ := (Py.decode_iff hbuf).1 hp
      obtain rfl := (ht'.rust_of_py (ht'.fits_of_py hb)).unique ht
      rw [Tlv.denote_value, Tlv.denote_pyValue, (h t' ht).2]

theorem decoders_agree_nested : DecodersAgree nestedInput := by
  refine (decoders_agree_iff (by decide)).2 fun t ht => ?_
  have hfits := Value.canonical_fits nestedValue_wf (by decide)
  obtain rfl := ht.unique (Value.canonical_spells nestedValue_wf hfits)
  exact ⟨hfits, rfl⟩

/-- A length of `2^64` in ten bytes is zero to Rust and too long to Python. -/
theorem decoders_disagree_on_long_length :
    ¬ ∀ b : Bytes, b.length ≤ isizeMax → DecodersAgree b := by
  intro h
  have hv : decode [0x20, 0x80, 0x80, 0x80, 0x80, 0x80, 0x80, 0x80, 0x80, 0x80, 0x02]
      = .ok (.string "") := rfl
  obtain ⟨p, hp⟩ := (h _ (by decide)).1.1 ⟨_, hv⟩
  have hr : Py.decode [0x20, 0x80, 0x80, 0x80, 0x80, 0x80, 0x80, 0x80, 0x80, 0x80, 0x02]
      = .error (.payloadTruncated .string) := rfl
  rw [hr] at hp
  cases hp

end Myco.Canonical
