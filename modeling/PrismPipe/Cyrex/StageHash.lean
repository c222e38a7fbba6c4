import PrismPipe.Python.DumpsLaws

/-! `stage_input_hash` of `cyrex_stage_store.py`: what is hashed says which version and payload it
is of. -/

namespace PrismPipe.Cyrex

open Python

def chars (s : PyStr) : List Char := s.map fun c => Char.ofNat c.val

/-- `s.encode()`. -/
def encode (s : PyStr) : Except EncodeError ByteArray :=
  if s.encodable then .ok (String.ofList (chars s)).toUTF8 else .error .unicodeEncodeError

/-- `f"{producer_version}:{content}"`. -/
def stageContent (payload : Json) (producerVersion : PyStr) : PyStr :=
  producerVersion ++ py ":" ++ payload.dumps

/-- `sha256` is `hashlib.sha256(...).hexdigest()`. -/
def stageInputHash (sha256 : ByteArray → String) (payload : Json)
    (producerVersion : PyStr := py "v1") : Except EncodeError String := do
  return sha256 (← encode (stageContent payload producerVersion))

structure Collision (sha256 : ByteArray → String) (a b : ByteArray) : Prop where
  ne : a ≠ b
  digest : sha256 a = sha256 b

theorem point_ofNat {c : CodePoint} (h : PyStr.isSurrogate c = false) :
    point (Char.ofNat c.val) = c := by
  have hvalid : c.val.isValidChar := by
    have hc := c.isLt
    simp only [PyStr.isSurrogate, Bool.and_eq_false_iff, decide_eq_false_iff_not] at h
    simp only [Nat.isValidChar]
    omega
  have hc : Char.ofNat c.val = Char.ofNatAux c.val hvalid := dif_pos hvalid
  rw [hc]
  rfl

theorem point_chars {s : PyStr} (h : s.encodable) : (chars s).map point = s := by
  rw [PyStr.encodable, List.all_eq_true] at h
  rw [chars, List.map_map]
  refine (List.map_congr_left fun c hc => ?_).trans (List.map_id s)
  exact point_ofNat (by simpa using h c hc)

theorem encode_eq_ok {s : PyStr} (h : encode s = .ok a) :
    s.encodable ∧ a = (String.ofList (chars s)).toUTF8 := by
  unfold encode at h
  split at h
  next hs =>
    cases h
    exact ⟨hs, rfl⟩
  · cases h

theorem encode_inj {s t : PyStr} (hs : encode s = .ok a) (ht : encode t = .ok a) : s = t := by
  obtain ⟨hs', rfl⟩ := encode_eq_ok hs
  obtain ⟨ht', hst⟩ := encode_eq_ok ht
  have hchars : chars s = chars t := String.ofList_inj.mp (String.toByteArray_inj.mp hst)
  rw [← point_chars hs', hchars, point_chars ht']

theorem stageContent_inj {p q : Json} {v w : PyStr} :
    stageContent p v = stageContent q w ↔ v = w ∧ p.dumps = q.dumps :=
  Json.append_dumps_inj

theorem stageInputHash_eq_ok {sha256 : ByteArray → String} {payload : Json}
    (h : stageInputHash sha256 payload producerVersion = .ok digest) :
    ∃ a, encode (stageContent payload producerVersion) = .ok a ∧ sha256 a = digest := by
  obtain ⟨a, ha, hdigest⟩ := bind_eq_ok h
  exact ⟨a, ha, Except.ok.inj hdigest⟩

theorem stageInputHash_ok (sha256 : ByteArray → String) (payload : Json)
    (h : producerVersion.encodable) : stageInputHash sha256 payload producerVersion =
      .ok (sha256 (String.ofList (chars (stageContent payload producerVersion))).toUTF8) := by
  have hcontent : (stageContent payload producerVersion).encodable := by
    simp [stageContent, Json.dumps, h]
  rw [stageInputHash, encode, if_pos hcontent]
  rfl

/-- What is hashed tells the version and the text of the payload, which tells the payload but for
the order of items and for surrogates in place of one character; so equal hashes of different ones
are a collision of SHA-256. -/
theorem stage_hash_unambiguous (sha256 : ByteArray → String) (v w : PyStr) (p q : Json) :
    (stageContent p v = stageContent q w ↔ v = w ∧ p.dumps = q.dumps) ∧
    (p.doubles → q.doubles →
      (p.dumps = q.dumps ↔ p.sortKeys.mapStr PyStr.utf16 = q.sortKeys.mapStr PyStr.utf16)) ∧
    ∀ digest, stageInputHash sha256 p v = .ok digest → stageInputHash sha256 q w = .ok digest →
      v = w ∧ p.dumps = q.dumps ∨
      ∃ a b, encode (stageContent p v) = .ok a ∧ encode (stageContent q w) = .ok b ∧
        Collision sha256 a b := by
  refine ⟨stageContent_inj, Json.dumps_eq_iff, ?_⟩
  intro digest hp hq
  obtain ⟨a, ha, hadigest⟩ := stageInputHash_eq_ok hp
  obtain ⟨b, hb, hbdigest⟩ := stageInputHash_eq_ok hq
  by_cases hab : a = b
  · subst hab
    exact .inl (stageContent_inj.mp (encode_inj ha hb))
  · exact .inr ⟨a, b, ha, hb, hab, hadigest.trans hbdigest.symm⟩

/-- Two orders of the items of one object. -/
theorem stage_hash_unambiguous_reordered :
    let digest := "9cc4ea2255c589af947df6bd0d8bf7637f4cd1175fbc8d40f5729318edc3620d"
    let p := Json.dict [(py "a", .int 1), (py "b", .int 2)]
    let q := Json.dict [(py "b", .int 2), (py "a", .int 1)]
    p.dumps = q.dumps ∧ (py "v1" = py "v1" ∧ p.dumps = q.dumps ∨
      ∃ a b, encode (stageContent p (py "v1")) = .ok a ∧
        encode (stageContent q (py "v1")) = .ok b ∧ Collision (fun _ => digest) a b) := by
  intro digest p q
  have hp : stageInputHash (fun _ => digest) p = .ok digest :=
    stageInputHash_ok _ p (encodable_py "v1")
  have hq : stageInputHash (fun _ => digest) q = .ok digest :=
    stageInputHash_ok _ q (encodable_py "v1")
  obtain ⟨-, hdumps, hhash⟩ := stage_hash_unambiguous (fun _ => digest) (py "v1") (py "v1") p q
  exact ⟨(hdumps rfl rfl).mpr rfl, hhash digest hp hq⟩

end PrismPipe.Cyrex
