import PicoDrone.Analysis.CgiHandler

/-!
# Wi-Fi provisioning

What reaches the Wi-Fi driver is the encoded SSID and passphrase, cut to 31 and 63 bytes,
because nothing between the browser and the driver decodes them (`submit_connect`). So the
values survive exactly if their encoding does not change them and they are not cut
(`provisioning_iff`).
-/

set_option autoImplicit false

namespace PicoDrone.Analysis

open PicoDrone.Library PicoDrone.Model PicoDrone.Model.NetworkClass

/-! ## The encoding -/

theorem formByte_plain {b : Byte} (h : isPlain b = true) : formByte b = [b] := if_pos h

/-- INTERNAL: the bytes of an encoding are none of the delimiters and not NUL. -/
theorem formByte_mem : ∀ b c : Byte, c ∈ formByte b → c ≠ 0x26#8 ∧ c ≠ 0x3D#8 ∧ c ≠ 0#8 := by
  intro b c hc
  unfold formByte at hc
  split at hc
  next hplain =>
    rw [List.mem_singleton] at hc
    subst hc
    refine ⟨?_, ?_, ?_⟩ <;> rintro rfl <;> simp [isPlain] at hplain
  next =>
    split at hc
    · rw [List.mem_singleton] at hc
      subst hc
      simp
    · have hdigit : ∀ n : Byte, n < 16#8 →
          hexDigit n ≠ 0x26#8 ∧ hexDigit n ≠ 0x3D#8 ∧ hexDigit n ≠ 0#8 := by decide
      have hhigh : b >>> 4 < 16#8 := by
        simp only [BitVec.lt_def, BitVec.toNat_ushiftRight, BitVec.toNat_ofNat,
          Nat.shiftRight_eq_div_pow]
        have := b.isLt
        omega
      have hlow : b &&& 0x0F#8 < 16#8 := by
        simp only [BitVec.lt_def, BitVec.toNat_and, BitVec.toNat_ofNat]
        exact Nat.lt_of_le_of_lt Nat.and_le_right (by omega)
      simp only [List.mem_cons, List.not_mem_nil, or_false] at hc
      obtain rfl | rfl | rfl := hc
      · simp
      · exact hdigit _ hhigh
      · exact hdigit _ hlow

theorem formEncode_mem {value : List Byte} {c : Byte} (hc : c ∈ formEncode value) :
    c ≠ 0x26#8 ∧ c ≠ 0x3D#8 ∧ c ≠ 0#8 := by
  obtain ⟨b, -, hb⟩ := List.mem_flatMap.mp hc
  exact formByte_mem b c hb

theorem formByte_ne_nil (b : Byte) : formByte b ≠ [] := by
  unfold formByte
  split
  · simp
  · split <;> simp

theorem formEncode_ne_nil {value : List Byte} (h : value ≠ []) : formEncode value ≠ [] := by
  cases value with
  | nil => exact absurd rfl h
  | cons b value => simp [formEncode, formByte_ne_nil]

/-! ## From the form to the driver -/

/-- INTERNAL: the server finds the two parameters, with their values still encoded. -/
theorem queryParams_formQuery (ssid password : List Byte) :
    queryParams (formQuery ssid password) =
      [(ascii "ssid", some (formEncode ssid)), (ascii "password", some (formEncode password))] := by
  have hsplit : ∀ (name value : List Byte), 0x3D#8 ∉ name →
      splitParam (name ++ 0x3D#8 :: value) = (name, some value) := by
    intro name value hname
    have hpos : ∀ b ∈ name, decide (b ≠ 0x3D#8) = true := by
      intro b hb
      exact decide_eq_true fun h => hname (h ▸ hb)
    rw [splitParam, List.takeWhile_append_of_pos hpos, List.dropWhile_append_of_pos hpos]
    simp
  have hamp : ∀ l ∈ [ascii "ssid=" ++ formEncode ssid, ascii "password=" ++ formEncode password],
      0x26#8 ∉ l := by
    intro l hl hmem
    simp only [List.mem_cons, List.not_mem_nil, or_false] at hl
    obtain rfl | rfl := hl
    · obtain h | h := List.mem_append.mp hmem
      · exact absurd h (by decide)
      · exact (formEncode_mem h).1 rfl
    · obtain h | h := List.mem_append.mp hmem
      · exact absurd h (by decide)
      · exact (formEncode_mem h).1 rfl
  rw [queryParams, formQuery, List.splitOn_intercalate _ hamp (by simp)]
  exact congrArg₂ _ (hsplit (ascii "ssid") (formEncode ssid) (by decide))
    (congrArg₂ _ (hsplit (ascii "password") (formEncode password) (by decide)) rfl)

/-- INTERNAL: the handler stores the two encodings, cut to its buffers.
SOURCE: Network/NetworkClass.cpp:24-73 -/
theorem submit_connect {ssid password : List Byte} (hssid : ssid ≠ []) (hpassword : password ≠ [])
    (net : NetworkClass) :
    ∃ net', submitForm ssid password net = some ("/confirm.html", net') ∧
      net'.ssid.string = some ((formEncode ssid).take 31) ∧
      net'.password.string = some ((formEncode password).take 63) := by
  have hnul : ∀ value : List Byte, 0#8 ∉ formEncode value :=
    fun value h => (formEncode_mem h).2.2 rfl
  have hvalues : ∀ p ∈ [(ascii "ssid", some (formEncode ssid)),
      (ascii "password", some (formEncode password))],
      ∃ value, p.2 = some value ∧ 0#8 ∉ value := by
    simp [hnul]
  have hlast : lastValue (ascii "ssid") [(ascii "ssid", some (formEncode ssid)),
      (ascii "password", some (formEncode password))] = formEncode ssid := by
    rw [lastValue, valuesOf_cons_self,
      valuesOf_cons_ne (show ascii "password" ≠ ascii "ssid" by decide)]
    rfl
  have hlast' : lastValue (ascii "password") [(ascii "ssid", some (formEncode ssid)),
      (ascii "password", some (formEncode password))] = formEncode password := by
    rw [lastValue, valuesOf_cons_ne (show ascii "ssid" ≠ ascii "password" by decide),
      valuesOf_cons_self]
    rfl
  have hhandler := cgiHandler_values hvalues net
  rw [hlast, hlast', if_pos ⟨formEncode_ne_nil hssid, formEncode_ne_nil hpassword⟩] at hhandler
  obtain ⟨net', hnet', hstring, hstring', -⟩ := hhandler
  exact ⟨net', by rw [submitForm, queryParams_formQuery, hnet'], hstring, hstring'⟩

/-! ## What survives -/

/-- The bytes of `2525…`, the tail of an encoded percent sign. -/
def percentTail (length : ℕ) : List Byte :=
  (List.range length).map fun i => if i % 2 = 0 then 0x32#8 else 0x35#8

/-- A value that is the first `limit` bytes of its own encoding: it needs no encoding and fits,
or it fills the buffer and from its first percent sign on it happens to read like one that
is encoded. -/
def Survives (limit : ℕ) (value : List Byte) : Prop :=
  ((∀ b ∈ value, isPlain b = true) ∧ value.length ≤ limit) ∨
    ∃ head k, (∀ b ∈ head, isPlain b = true) ∧ value = head ++ 0x25#8 :: percentTail k ∧
      value.length = limit

@[simp] theorem percentTail_length (length : ℕ) : (percentTail length).length = length := by
  simp [percentTail]

theorem formEncode_cons (b : Byte) (value : List Byte) :
    formEncode (b :: value) = formByte b ++ formEncode value := rfl

/-- INTERNAL: plain bytes are encoded as they are. -/
theorem formEncode_append_plain {head : List Byte} (hhead : ∀ b ∈ head, isPlain b = true)
    (rest : List Byte) : formEncode (head ++ rest) = head ++ formEncode rest := by
  induction head with
  | nil => rfl
  | cons b head ih =>
    rw [List.cons_append, formEncode_cons, formByte_plain (hhead b List.mem_cons_self),
      ih fun c hc => hhead c (List.mem_cons_of_mem b hc)]
    rfl

theorem formEncode_plain {value : List Byte} (h : ∀ b ∈ value, isPlain b = true) :
    formEncode value = value := by
  have happend := formEncode_append_plain h []
  rw [List.append_nil] at happend
  rw [happend]
  exact List.append_nil value

theorem length_le_formEncode (value : List Byte) : value.length ≤ (formEncode value).length := by
  induction value with
  | nil => simp
  | cons b value ih =>
    have hpos := List.length_pos_of_ne_nil (formByte_ne_nil b)
    rw [formEncode_cons, List.length_append, List.length_cons]
    omega

/-- INTERNAL: `percentTail` is the only list that continues `25` with its own encoding. -/
theorem eq_percentTail {xs : List Byte} {limit : ℕ}
    (h : (0x32#8 :: 0x35#8 :: formEncode xs).take limit = xs) : xs = percentTail limit := by
  have hlen : xs.length = limit := by
    have hle := length_le_formEncode xs
    have := congrArg List.length h
    simp only [List.length_take, List.length_cons] at this
    omega
  have hcell : ∀ i < limit, xs[i]? = some (if i % 2 = 0 then 0x32#8 else 0x35#8) := by
    intro i
    induction i using Nat.strongRecOn with
    | _ i ih =>
      intro hi
      rw [← h, List.getElem?_take_of_lt hi]
      match i with
      | 0 => rfl
      | 1 => rfl
      | j + 2 =>
        -- the bytes before position `j + 2` are digits, so the encoding has copied them
        have hdigits : ∀ b ∈ xs.take (j + 1), isPlain b = true := by
          intro b hb
          obtain ⟨k, hk, hbk⟩ := List.mem_take_iff_getElem.mp hb
          have := ih k (by omega) (by omega)
          rw [List.getElem?_eq_getElem (by omega), Option.some_inj] at this
          rw [← hbk, this]
          split <;> rfl
        have hcopy : formEncode xs = xs.take (j + 1) ++ formEncode (xs.drop (j + 1)) := by
          conv_lhs => rw [← List.take_append_drop (j + 1) xs]
          exact formEncode_append_plain hdigits _
        have htake : (xs.take (j + 1)).length = j + 1 := List.length_take_of_le (by omega)
        simp only [List.getElem?_cons_succ]
        rw [hcopy, List.getElem?_append_left (by omega), List.getElem?_take_of_lt (by omega),
          ih j (by omega) (by omega), Nat.add_mod_right]
  apply List.ext_getElem?
  intro i
  by_cases hi : i < limit
  · rw [hcell i hi]
    simp [percentTail, hi]
  · rw [List.getElem?_eq_none (by omega), List.getElem?_eq_none (by simp; omega)]

/-- INTERNAL: the values that the encoding and the cut leave as they are. -/
theorem take_formEncode_iff (limit : ℕ) (value : List Byte) :
    (formEncode value).take limit = value ↔ Survives limit value := by
  constructor
  · induction value generalizing limit with
    | nil => exact fun _ => Or.inl ⟨by simp, Nat.zero_le _⟩
    | cons b value ih =>
      intro h
      cases limit with
      | zero => simp at h
      | succ limit =>
        by_cases hplain : isPlain b = true
        · rw [formEncode_cons, formByte_plain hplain, List.singleton_append, List.take_succ_cons,
            List.cons.injEq] at h
          obtain ⟨hall, hle⟩ | ⟨head, k, hhead, rfl, hlen⟩ := ih limit h.2
          · exact Or.inl ⟨List.forall_mem_cons.mpr ⟨hplain, hall⟩, Nat.succ_le_succ hle⟩
          · exact Or.inr ⟨b :: head, k, List.forall_mem_cons.mpr ⟨hplain, hhead⟩, rfl,
              congrArg Nat.succ hlen⟩
        · by_cases hspace : b = 0x20#8
          · subst hspace
            rw [formEncode_cons] at h
            simp [formByte, isPlain] at h
          · rw [formEncode_cons, formByte, if_neg hplain, if_neg hspace, List.cons_append,
              List.take_succ_cons, List.cons.injEq] at h
            obtain ⟨rfl, htail⟩ := h
            have hvalue := eq_percentTail htail
            exact Or.inr ⟨[], limit, by simp, by rw [← hvalue]; rfl, by
              rw [hvalue, List.length_cons, percentTail_length]⟩
  · rintro (⟨hplain, hlen⟩ | ⟨head, k, hhead, rfl, hlen⟩)
    · rw [formEncode_plain hplain]
      exact List.take_of_length_le hlen
    · have hdigits : ∀ b ∈ percentTail k, isPlain b = true := by
        intro b hb
        obtain ⟨i, -, rfl⟩ := List.mem_map.mp hb
        split <;> rfl
      have hshift : formByte 0x25#8 ++ percentTail k = 0x25#8 :: percentTail (2 + k) := by
        rw [percentTail, percentTail, List.range_add, List.map_append, List.map_map]
        simp only [Function.comp_def, Nat.add_mod_left]
        rfl
      have hcut : (percentTail (2 + k)).take k = percentTail k := by
        simp [percentTail, ← List.map_take, List.take_range]
      rw [formEncode_append_plain hhead, formEncode_cons, formEncode_plain hdigits, hshift, ← hlen,
        List.length_append, List.take_length_add_append, List.length_cons, percentTail_length,
        List.take_succ_cons, hcut]

/-! ## Provisioning -/

/-- An SSID that may be entered: 1 to 32 bytes without NUL. -/
def IsSsid (ssid : List Byte) : Prop := 1 ≤ ssid.length ∧ ssid.length ≤ 32 ∧ 0#8 ∉ ssid

/-- A WPA2 passphrase: 8 to 63 printable ASCII characters. -/
def IsPassphrase (password : List Byte) : Prop :=
  8 ≤ password.length ∧ password.length ≤ 63 ∧ ∀ b ∈ password, 0x20#8 ≤ b ∧ b ≤ 0x7E#8

/-- CONTRACT: after the form is submitted with an SSID and a passphrase, `connect` passes exactly
these two strings to the driver exactly if both survive the encoding and the cut, the SSID to
31 bytes and the passphrase to 63.
SOURCE: Network/NetworkClass.cpp:24-73, index.html:8-14 -/
theorem provisioning_iff (ssid password : List Byte) (hssid : IsSsid ssid)
    (hpassword : IsPassphrase password) (net : NetworkClass) (error : ConnectRequest → ℤ) :
    (∃ page net', submitForm ssid password net = some (page, net') ∧
      ∃ request answer, connect error net' = some (request, answer) ∧
        request.ssid = ssid ∧ request.password = password) ↔
      Survives 31 ssid ∧ Survives 63 password := by
  have hne : ssid ≠ [] ∧ password ≠ [] := by
    constructor
    · apply List.ne_nil_of_length_pos
      exact hssid.1
    · apply List.ne_nil_of_length_pos
      exact Nat.lt_of_lt_of_le (by omega) hpassword.1
  obtain ⟨net', hsubmit, hstring, hstring'⟩ := submit_connect hne.1 hne.2 net
  have hconnect : ∃ answer, connect error net' = some
      (⟨(formEncode ssid).take 31, (formEncode password).take 63, .wpa2AesPsk, 30000⟩, answer) := by
    simp only [connect, hstring, hstring', Option.bind_eq_bind, Option.bind_some]
    split
    · exact ⟨_, rfl⟩
    · exact ⟨_, rfl⟩
  obtain ⟨answer, hanswer⟩ := hconnect
  rw [← take_formEncode_iff, ← take_formEncode_iff]
  constructor
  · rintro ⟨page, net₁, h₁, request, answer₁, h₂, hs, hp⟩
    have hnet : net' = net₁ := congrArg Prod.snd (Option.some.inj (hsubmit.symm.trans h₁))
    rw [← hnet, hanswer] at h₂
    have hrequest := Prod.ext_iff.mp (Option.some.inj h₂)
    exact ⟨(congrArg ConnectRequest.ssid hrequest.1).trans hs,
      (congrArg ConnectRequest.password hrequest.1).trans hp⟩
  · rintro ⟨h, h'⟩
    exact ⟨_, net', hsubmit, _, answer, hanswer, h, h'⟩

theorem provisioning_iff_plain :
    ∃ page net', submitForm (ascii "picow_test") (ascii "Passw0rd")
        ⟨⟨fun _ => 0#8⟩, ⟨fun _ => 0#8⟩, false, []⟩ = some (page, net') ∧
      ∃ request answer, connect (fun _ => 0) net' = some (request, answer) ∧
        request.ssid = ascii "picow_test" ∧ request.password = ascii "Passw0rd" :=
  (provisioning_iff (ascii "picow_test") (ascii "Passw0rd") (by unfold IsSsid; decide)
    (by unfold IsPassphrase; decide) ⟨⟨fun _ => 0#8⟩, ⟨fun _ => 0#8⟩, false, []⟩ fun _ => 0).mpr
    ⟨Or.inl (by decide), Or.inl (by decide)⟩

/-- A space arrives as `+`, an exclamation mark as `%21`, and an SSID of 32 letters loses one. -/
theorem provisioning_encoded :
    (submitForm (ascii "My Home") (ascii "Passw0rd!")
        ⟨⟨fun _ => 0#8⟩, ⟨fun _ => 0#8⟩, false, []⟩).bind (fun p =>
          (connect (fun _ => 0) p.2).map fun q => (q.1.ssid, q.1.password)) =
        some (ascii "My+Home", ascii "Passw0rd%21") ∧
      (submitForm (List.replicate 32 0x61#8) (ascii "Passw0rd")
        ⟨⟨fun _ => 0#8⟩, ⟨fun _ => 0#8⟩, false, []⟩).bind (fun p =>
          (connect (fun _ => 0) p.2).map fun q => (q.1.ssid, q.1.password)) =
        some (List.replicate 31 0x61#8, ascii "Passw0rd") := by
  decide

end PicoDrone.Analysis
