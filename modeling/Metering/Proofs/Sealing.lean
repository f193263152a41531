import Metering.Cipher.Aes
import Metering.Proofs.Eax

set_option autoImplicit false

/-! # Sealing is exact

A body is encrypted with its own length and followed by a tag of fixed length, so sealed data is cut apart
where it was put together. Opening decrypts what is in front of the tag, and since counter mode is undone in
both directions (`Eax.encryptBody_decryptBody`), the tag that opening asks for is the one that sealing would
have given to what comes out. So every body has one sealed form, and opening takes nothing else. Nothing is
asked of the function on blocks. -/

namespace Metering.Eax

variable (e : Eax) (clear : Bytes)

/-- **What was decrypted is encrypted** under the same cleartext, with the tag that it should have had. -/
theorem encryptBody_decryptBody (body : Bytes) :
    e.encryptBody clear (e.decryptBody clear body).1 = (body, (e.decryptBody clear body).2) := by
  cases body with
  | nil => rfl
  | cons first rest =>
    have opened : e.decryptBody clear (first :: rest) =
        (e.applyStream (e.nonce clear) (first :: rest), e.bodyTag (e.nonce clear) (first :: rest)) := rfl
    have some : (e.applyStream (e.nonce clear) (first :: rest)).isEmpty = false := by
      rw [← Bool.not_eq_true, List.isEmpty_iff_length_eq_zero, length_applyStream]
      exact Nat.succ_ne_zero _
    rw [opened, encryptBody]
    simp only [some, Bool.false_eq_true, if_false, applyStream_twice]

/-- A tag of the right length is cut off where it was put. -/
theorem openWithTag_append (sealed : Bytes) {tag : Bytes} (size : tag.length = tagLength) :
    e.openWithTag clear (sealed ++ tag) =
      if (e.decryptBody clear sealed).2 = tag then .ok (e.decryptBody clear sealed).1
      else .error (.authentication .tagMismatch) := by
  have cut : (sealed ++ tag).length - tagLength = sealed.length := by
    rw [List.length_append, size, Nat.add_sub_cancel]
  have long : ¬ (sealed ++ tag).length < tagLength := by
    rw [List.length_append, size]
    exact Nat.not_lt.2 (Nat.le_add_left _ _)
  unfold openWithTag
  rw [if_neg long, cut]
  simp only [List.take_left, List.drop_left, tagsAgree_iff]

/-- What is opened was cut into what is decrypted and the tag it asks for. -/
theorem openWithTag_ok {data body : Bytes} (h : e.openWithTag clear data = .ok body) :
    ∃ sealed, data = sealed ++ (e.decryptBody clear sealed).2 ∧ (e.decryptBody clear sealed).1 = body := by
  unfold openWithTag at h
  split at h
  · cases h
  simp only at h
  split at h
  next agree =>
    refine ⟨data.take (data.length - tagLength), ?_, Except.ok.inj h⟩
    rw [tagsAgree_iff.1 agree, List.take_append_drop]
  next => cases h

theorem length_sealWithTag (body : Bytes) : (e.sealWithTag clear body).length = body.length + tagLength := by
  rw [sealWithTag, List.length_append, length_encryptBody, length_tag_encryptBody]

theorem openWithTag_sealWithTag (body : Bytes) : e.openWithTag clear (e.sealWithTag clear body) = .ok body := by
  rw [sealWithTag, openWithTag_append _ _ _ (e.length_tag_encryptBody clear body), decryptBody_encryptBody, if_pos rfl]

/-- **Nothing but sealed data is opened.** -/
theorem sealWithTag_of_openWithTag {data body : Bytes} (h : e.openWithTag clear data = .ok body) :
    data = e.sealWithTag clear body := by
  obtain ⟨sealed, rfl, rfl⟩ := e.openWithTag_ok clear h
  rw [sealWithTag, encryptBody_decryptBody]

/-- Data that is not opened is refused as not authentic. -/
theorem openWithTag_cases (data : Bytes) :
    (∃ body, e.openWithTag clear data = .ok body) ∨
      ∃ cause, e.openWithTag clear data = .error (.authentication cause) := by
  unfold openWithTag
  split
  · exact .inr ⟨_, rfl⟩
  dsimp only
  split
  · exact .inl ⟨_, rfl⟩
  · exact .inr ⟨_, rfl⟩

/-- **Sealing is exact**, with any function on blocks. A body is opened from its sealed form and from nothing
else, and all other data is refused; so is the sealed form with another tag. Encrypting a body alone gives
the sealed form in two parts, decrypting alone gives the body back with the tag that the rest of the data is
compared with, and without a body the tag is that of the cleartext. -/
theorem sealing_exact :
    (∀ body, e.openWithTag clear (e.sealWithTag clear body) = .ok body) ∧
    (∀ data body, e.openWithTag clear data = .ok body → data = e.sealWithTag clear body) ∧
    (∀ data, (∀ body, data ≠ e.sealWithTag clear body) →
      ∃ cause, e.openWithTag clear data = .error (.authentication cause)) ∧
    (∀ body tag : Bytes, tag.length = tagLength → (e.encryptBody clear body).1 ++ tag ≠ e.sealWithTag clear body →
      e.openWithTag clear ((e.encryptBody clear body).1 ++ tag) = .error (.authentication .tagMismatch)) ∧
    (∀ body, e.sealWithTag clear body = (e.encryptBody clear body).1 ++ (e.encryptBody clear body).2 ∧
      e.decryptBody clear (e.encryptBody clear body).1 = (body, (e.encryptBody clear body).2)) ∧
    (∀ sealed tag : Bytes, tag.length = tagLength →
      e.openWithTag clear (sealed ++ tag) =
        if (e.decryptBody clear sealed).2 = tag then .ok (e.decryptBody clear sealed).1
        else .error (.authentication .tagMismatch)) ∧
    e.encryptBody clear [] = ([], e.authenticate clear) ∧ e.decryptBody clear [] = ([], e.authenticate clear) := by
  refine ⟨e.openWithTag_sealWithTag clear, fun data body => e.sealWithTag_of_openWithTag clear, fun data other => ?_,
    fun body tag size other => ?_, fun body => ⟨rfl, e.decryptBody_encryptBody clear body⟩,
    fun sealed tag => e.openWithTag_append clear sealed, rfl, rfl⟩
  · obtain ⟨body, opened⟩ | refused := e.openWithTag_cases clear data
    · exact absurd (e.sealWithTag_of_openWithTag clear opened) (other body)
    · exact refused
  · have changed : (e.encryptBody clear body).2 ≠ tag := by
      rintro rfl
      exact other rfl
    rw [openWithTag_append _ _ _ size, decryptBody_encryptBody, if_neg changed]

/-- The mode over two rounds of AES that share one key. -/
def twoRounds : Eax := .ofCipher <| Aes.encryptWith <| List.replicate 3 <| .ofBytes
  [0x2B, 0x7E, 0x15, 0x16, 0x28, 0xAE, 0xD2, 0xA6, 0xAB, 0xF7, 0x15, 0x88, 0x09, 0xCF, 0x4F, 0x3C]

/-- What was sealed, the same with a bit of the tag turned, and the same cut off within the tag. -/
theorem sealing_exact_twoRounds :
    twoRounds.openWithTag [1, 2] [0x2C, 0x71, 0x0A, 0xEF, 0x98, 0x81, 0x49] = .ok [0x20, 0x13, 0x10] ∧
    twoRounds.openWithTag [1, 2] [0x2C, 0x71, 0x0A, 0xEF, 0x98, 0x81, 0x48] = .error (.authentication .tagMismatch) ∧
    ∃ cause, twoRounds.openWithTag [1, 2] [0x2C, 0x71, 0x0A] = .error (.authentication cause) := by
  obtain ⟨opened, -, refused, mismatch, -⟩ := sealing_exact twoRounds [1, 2]
  have encrypted : twoRounds.encryptBody [1, 2] [0x20, 0x13, 0x10] = ([0x2C, 0x71, 0x0A], [0xEF, 0x98, 0x81, 0x49]) := by
    decide +kernel
  have whole : twoRounds.sealWithTag [1, 2] [0x20, 0x13, 0x10] = [0x2C, 0x71, 0x0A, 0xEF, 0x98, 0x81, 0x49] := by
    rw [sealWithTag, encrypted]
    rfl
  refine ⟨whole ▸ opened [0x20, 0x13, 0x10], ?_, refused _ fun body same => ?_⟩
  · have changed := mismatch [0x20, 0x13, 0x10] [0xEF, 0x98, 0x81, 0x48] rfl
    rw [whole, encrypted] at changed
    exact changed (by decide)
  · have size := congrArg List.length same
    rw [length_sealWithTag] at size
    simp [tagLength] at size

end Metering.Eax
