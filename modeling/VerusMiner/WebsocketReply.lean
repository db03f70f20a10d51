import VerusMiner.Base64Encode
import VerusMiner.Lib.WsFrame

/-! The bytes a websocket client gets: the answer to its handshake and a frame
with the result, against the framing of the protocol. -/

namespace VerusMiner

variable (sha1 : List Byte → Vector Byte 20)

def websocketDigest (clientkey : CString) : List Byte := (sha1 (textBytes (clientkey ++ websocketGuid))).toList

/-- The bytes of `data` that `send` is given, whose count is an `int`; a
negative one is past the end of any memory. -/
def websocketSend (result clientkey : CString) : Option (List Byte) :=
  let data := (websocketHandshake sha1 result clientkey).sent
  let answer := websocketAnswer (base64Encode (websocketDigest sha1 clientkey) 64).1
  let frames := (frameHeader result.length).length
  let count := (BitVec.ofNat 32 (answer.length + frames + result.length + 1)).toInt
  if count < 0 then none else some (data.take count.toNat)

/-- The key is answered with the base 64 of the digest, and behind the blank
line there is a text frame with the result and nothing else. -/
def OneFrame (result clientkey : CString) : Prop :=
  ∃ sent, websocketSend sha1 result clientkey = some sent ∧
    textBytes (answerHead ++ base64 (websocketDigest sha1 clientkey) ++ ['\r', '\n']) <+: sent ∧
    (afterHead sent).bind wsFrame = some (wsText (textBytes result), [])

section Reply

variable {sha1} {result clientkey : CString}

theorem base64Encode_digest : (base64Encode (websocketDigest sha1 clientkey) 64).1 =
    base64 (websocketDigest sha1 clientkey) := by
  have hdigest : (websocketDigest sha1 clientkey).length = 20 := Vector.size_toArray _
  exact (base64Encode_standard_iff (by omega)).mpr (.inr (.inr hdigest))

theorem frameHeader_cases (n : Nat) :
    n ≤ 125 ∧ frameHeader n = [129, BitVec.ofNat 8 n] ∨
    (126 ≤ n ∧ n < 65536) ∧ frameHeader n = 129 :: 126 :: beBytes 2 n ∨
    65536 ≤ n ∧ frameHeader n = 129 :: 127 :: beBytes 8 n := by
  simp only [frameHeader, beBytes, Nat.shiftRight_eq_div_pow, Nat.div_div_eq_div_mul]
  split_ifs with hshort hmiddle
  · exact .inl ⟨hshort, by simp⟩
  · exact .inr (.inl ⟨by omega, by simp⟩)
  · exact .inr (.inr ⟨by omega, by simp⟩)

theorem wsFrame_frameHeader {payload : List Byte} (h : payload.length < 2 ^ 63) (rest : List Byte) :
    wsFrame (frameHeader payload.length ++ (payload ++ rest)) = some (wsText payload, rest) := by
  rcases frameHeader_cases payload.length with ⟨hn, heq⟩ | ⟨⟨hlow, hhigh⟩, heq⟩ | ⟨hn, heq⟩
  · have hbyte : (BitVec.ofNat 8 payload.length).toNat = payload.length := by
      rw [BitVec.toNat_ofNat]
      omega
    rw [heq]
    refine wsFrame_text (by omega) ?_
    rw [hbyte, wsLength, if_neg (by omega), if_neg (by omega)]
    rfl
  · rw [heq]
    exact wsFrame_text (by decide) (wsLength_two hlow hhigh _)
  · rw [heq]
    exact wsFrame_text (by decide) (wsLength_eight hn h _)

theorem textBytes_append (s t : CString) : textBytes (s ++ t) = textBytes s ++ textBytes t := List.map_append

theorem length_textBytes (s : CString) : (textBytes s).length = s.length := List.length_map _

theorem textBytes_base64_ne (bs : List Byte) : ∀ b ∈ textBytes (base64 bs), b ≠ 13 := by
  intro b hb
  obtain ⟨c, hc, rfl⟩ := List.mem_map.mp hb
  rcases mem_base64 hc with rfl | ⟨d, hd, rfl⟩
  · decide
  · interval_cases d <;> decide

theorem afterHead_answer (bs rest : List Byte) :
    afterHead (textBytes (websocketAnswer (base64 bs)) ++ rest) = some rest := by
  have hhead : noBlankLine (textBytes answerHead) = true := by decide +kernel
  have htail : textBytes answerTail =
      textBytes "\r\nSec-WebSocket-Protocol: text".toList ++ [13, 10, 13, 10] := by decide +kernel
  have hlast : noBlankLine (textBytes "\r\nSec-WebSocket-Protocol: text".toList) = true := by decide +kernel
  rw [websocketAnswer, textBytes_append, textBytes_append, List.append_assoc, List.append_assoc,
    afterHead_append hhead, afterHead_append (noBlankLine_of_forall (textBytes_base64_ne bs)), htail,
    List.append_assoc, afterHead_append hlast]
  exact afterHead_blank rest

theorem length_frameHeader_le (n : Nat) : (frameHeader n).length ≤ 10 := by
  rcases frameHeader_cases n with ⟨_, heq⟩ | ⟨_, heq⟩ | ⟨_, heq⟩
  · simp [heq]
  · simp [heq, length_beBytes]
  · simp [heq, length_beBytes]

theorem length_frameHeader_long {n : Nat} (h : 65536 ≤ n) : (frameHeader n).length = 10 := by
  rcases frameHeader_cases n with ⟨hn, _⟩ | ⟨hn, _⟩ | ⟨_, heq⟩
  · omega
  · omega
  · simp [heq, length_beBytes]

theorem websocketHandshake_sent (result clientkey : CString) : (websocketHandshake sha1 result clientkey).sent =
    textBytes (websocketAnswer (base64 (websocketDigest sha1 clientkey))) ++
      (frameHeader result.length ++ (textBytes result ++ [0])) := by
  rw [← base64Encode_digest]
  simp only [websocketHandshake, websocketDigest, List.append_assoc]

theorem websocketHandshake_sent_length (sha1 : List Byte → Vector Byte 20) (result clientkey : CString) :
    (websocketHandshake sha1 result clientkey).sent.length =
      (websocketAnswer (base64Encode (websocketDigest sha1 clientkey) 64).1).length +
        (frameHeader result.length).length + result.length + 1 := by
  simp only [websocketHandshake, websocketDigest, List.length_append, length_textBytes, List.length_singleton]

theorem websocketAnswer_digest_length (sha1 : List Byte → Vector Byte 20) (clientkey : CString) :
    (websocketAnswer (base64Encode (websocketDigest sha1 clientkey) 64).1).length = 158 := by
  rw [websocketAnswer_length, websocketDigest, base64Encode_sha1_length]

theorem websocketSend_of_length (h : result.length + 169 < 2 ^ 31) :
    websocketSend sha1 result clientkey = some (websocketHandshake sha1 result clientkey).sent := by
  have hframes := length_frameHeader_le result.length
  have hanswer := websocketAnswer_digest_length sha1 clientkey
  have hcount := toInt_ofNat_length (websocketHandshake sha1 result clientkey).sent.length
  have hlength := websocketHandshake_sent_length sha1 result clientkey
  simp only [websocketSend, ← hlength]
  rw [if_pos (by omega)] at hcount
  rw [hcount, if_neg (by omega), List.take_of_length_le (by omega)]

/-- Otherwise the count is negative, or short of the result. -/
theorem websocketSend_short (h : 2 ^ 31 ≤ result.length + 169) {sent : List Byte}
    (hsent : websocketSend sha1 result clientkey = some sent) : sent.length < result.length := by
  have hframes := length_frameHeader_long (n := result.length) (by omega)
  have hanswer := websocketAnswer_digest_length sha1 clientkey
  have hcount := toInt_ofNat_length (websocketHandshake sha1 result clientkey).sent.length
  have hlength := websocketHandshake_sent_length sha1 result clientkey
  simp only [websocketSend, ← hlength] at hsent
  split_ifs at hsent with hneg
  rw [← Option.some.inj hsent, List.length_take]
  split_ifs at hcount
  · omega
  · omega

theorem prefix_answer (bs rest : List Byte) :
    textBytes (answerHead ++ base64 bs ++ ['\r', '\n']) <+: textBytes (websocketAnswer (base64 bs)) ++ rest := by
  have htail : answerTail = ['\r', '\n'] ++ "Sec-WebSocket-Protocol: text\r\n\r\n".toList := by decide +kernel
  rw [websocketAnswer, htail, ← List.append_assoc, textBytes_append (answerHead ++ _ ++ _), List.append_assoc]
  exact (List.prefix_append _ _).trans (List.prefix_append _ _)

/-- Behind the frame there is the zero that ends the result. -/
theorem wsFrame_sent (h : result.length < 2 ^ 63) :
    (afterHead (websocketHandshake sha1 result clientkey).sent).bind wsFrame =
      some (wsText (textBytes result), [0]) := by
  rw [websocketHandshake_sent, afterHead_answer, Option.bind_some, ← length_textBytes result]
  exact wsFrame_frameHeader (by rwa [length_textBytes]) [0]

theorem not_oneFrame : ¬ OneFrame sha1 result clientkey := by
  rintro ⟨sent, hsent, _, hframe⟩
  rcases Nat.lt_or_ge (result.length + 169) (2 ^ 31) with hlt | hge
  · rw [websocketSend_of_length hlt, Option.some.injEq] at hsent
    rw [← hsent, wsFrame_sent (by omega)] at hframe
    cases hframe
  · -- what is sent has no room for the result
    have hshort := websocketSend_short hge hsent
    obtain ⟨t, ht, hframe⟩ := Option.bind_eq_some_iff.mp hframe
    have hlength := length_of_wsFrame hframe
    have htail := length_of_afterHead ht
    rw [wsText, length_textBytes] at hlength
    omega

end Reply

/-- No reply is one frame; but for the zero behind the frame all is as it
should be. -/
theorem oneFrame_never (result clientkey : CString) :
    ¬ OneFrame sha1 result clientkey ∧
    (clientkey.length ≤ 91 → result.length + 169 < 2 ^ 31 →
      (∀ a ∈ (websocketHandshake sha1 result clientkey).accesses, a.Safe) ∧
      ∃ sent, websocketSend sha1 result clientkey = some sent ∧
        textBytes (answerHead ++ base64 (websocketDigest sha1 clientkey) ++ ['\r', '\n']) <+: sent ∧
        (afterHead sent).bind wsFrame = some (wsText (textBytes result), [0])) := by
  refine ⟨not_oneFrame, fun hkey hlt => ?_⟩
  refine ⟨(websocketHandshake_safe_iff sha1 result clientkey).mpr hkey, _, websocketSend_of_length hlt, ?_,
    wsFrame_sent (by omega)⟩
  rw [websocketHandshake_sent]
  exact prefix_answer _ _

/-- The reply "a" has the zero behind its frame. -/
theorem oneFrame_zero : ¬ OneFrame (fun _ => Vector.replicate 20 0) ['a'] "dGhlIHNhbXBsZSBub25jZQ==".toList :=
  not_oneFrame

end VerusMiner
