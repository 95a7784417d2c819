import ScriptLift.Output.Encoding
import ScriptLift.Proofs.Text.Utf16

/-!
# Written text reads back

Texts written one after another in UTF-16 lead to what the whole text leads to, wherever they are
cut: what a codec keeps is always the beginning of the characters still to come. Decoding finds the
byte order mark, and gives the texts in a row.

* `Encoder.flatten_writeEach_utf16`: all that pieces of text lead to.
* `Encoder.encodeWith_utf16`, `Encoder.encodeWith_utf8`: all bytes of an encoding.
* **`Encoder.decodeWith_encodeWith`**: texts written in either encoding are decoded to themselves.
-/

namespace ScriptLift.Encoder

open Text

section

variable {σ : Type} {codec : Codec σ}

theorem flatten_writeEach_utf8 (state : σ) (writes : List String) :
    (writeEach codec ⟨.utf8, state⟩ writes).flatten = (String.join writes).toList := by
  induction writes with
  | nil => rfl
  | cons t ts ih =>
    rw [writeEach, write, String.join_cons, String.toList_append, List.flatten_append, ih,
      List.flatten_singleton]

theorem encodeWith_utf8 (codec : Codec σ) (writes : List String) :
    String.ofList (encodeWith codec .utf8 writes) = String.join writes := by
  have hflat : encodeWith codec .utf8 writes = (String.join writes).toList :=
    flatten_writeEach_utf8 codec.start writes
  rw [hflat, String.ofList_toList]

variable {held : σ → List Char} (hcodec : codec.IsUtf16 held)
include hcodec

/-- **Pieces of text lead to the characters that their bytes spell**, wherever these are cut. The
bytes kept are always the beginning of the characters still to come. -/
theorem flatten_writeEach_utf16 {s : σ} {cs : List Char} {writes : List String}
    (h : held s ++ (String.join writes).toList = cs.flatMap encodeChar)
    (hend : writes = [] → cs = []) :
    (writeEach codec ⟨.utf16, s⟩ writes).flatten = cs.flatMap charBytes16 := by
  induction writes generalizing s cs with
  | nil =>
    obtain rfl := hend rfl
    exact hcodec.stop (List.append_eq_nil_iff.mp h).1
  | cons t ts ih =>
    rw [String.join_cons, String.toList_append, ← List.append_assoc] at h
    obtain ⟨done, rest, pending, rfl, hhand, hbegins, hrest, hnil⟩ := exists_whole_of_append_eq h
    obtain ⟨hwrites, hkept⟩ := hcodec.step hhand hbegins
    rw [← hkept] at hrest
    have hend' : ts = [] → rest = [] := by
      rintro rfl
      exact hnil rfl
    rw [writeEach, write]
    simp only [List.flatten_append, hwrites, ih hrest hend', List.flatMap_append]

/-- The byte order mark comes first, and nothing of it is kept. -/
theorem exists_start_utf16 : ∃ ws s, start codec ⟨.utf16, codec.start⟩ = (ws, ⟨.utf16, s⟩) ∧
    ws.flatten = charBytes16 byteOrderMark ∧ held s = [] := by
  have hhand : held codec.start ++ (ofUnicode (String.singleton byteOrderMark)).toList =
      [byteOrderMark].flatMap encodeChar ++ [] := by
    rw [hcodec.start, toList_ofUnicode]
    rfl
  obtain ⟨hwrites, hkept⟩ := hcodec.step hhand begins_nil
  exact ⟨_, _, rfl, hwrites.trans (List.append_nil _), hkept⟩

/-- **All bytes of a text**: the byte order mark, and its characters in UTF-16. -/
theorem encodeWith_utf16 {writes : List String} {s : String}
    (h : String.join writes = ofUnicode s) :
    encodeWith codec .utf16 writes = (byteOrderMark :: s.toList).flatMap charBytes16 := by
  obtain ⟨ws, state, hstart, hmark, hkept⟩ := exists_start_utf16 hcodec
  have hbytes : (String.join writes).toList = s.toList.flatMap encodeChar := by
    rw [h, toList_ofUnicode]
  have hhand : held state ++ (String.join writes).toList = s.toList.flatMap encodeChar := by
    rw [hkept, List.nil_append, hbytes]
  have hend : writes = [] → s.toList = [] := by
    rintro rfl
    exact List.eq_nil_iff_forall_not_mem.mpr fun c hc =>
      encodeChar_ne_nil c (List.flatMap_eq_nil_iff.mp hbytes.symm c hc)
  rw [encodeWith, hstart, List.flatMap_cons, ← hmark, ← flatten_writeEach_utf16 hcodec hhand hend]
  exact List.flatten_append

end

/-- **What is written reads back**, with any codec of UTF-16. Texts in UTF-8, cut anyhow into writes,
become the UTF-16 of their characters behind a byte order mark, or stay the bytes they are; either is
decoded, to the texts in a row. -/
theorem decodeWith_encodeWith {σ : Type} {codec : Codec σ} {held : σ → List Char}
    (hcodec : codec.IsUtf16 held) {texts : List String} (valid : ∀ t ∈ texts, IsUtf8 t)
    {writes : List String} (cut : String.join writes = String.join texts) :
    encodeWith codec .utf16 writes =
        (byteOrderMark :: (toUnicode (String.join texts)).toList).flatMap charBytes16 ∧
    decodeWith codec.decode (String.ofList (encodeWith codec .utf16 writes)) =
      .ok (String.join texts) ∧
    decodeWith codec.decode (String.ofList (encodeWith codec .utf8 writes)) =
      .ok (String.join texts) := by
  obtain ⟨s, hs⟩ := isUtf8_join valid
  have hutf16 := encodeWith_utf16 hcodec (cut.trans hs)
  refine ⟨?_, ?_, ?_⟩
  · rw [hutf16, hs, toUnicode_ofUnicode]
  · rw [hutf16, decodeWith_utf16 hcodec, hs]
  · rw [encodeWith_utf8, cut, hs, decodeWith_ofUnicode]

/-- A byte order mark and a character beyond the basic plane, cut inside both of them. -/
theorem decodeWith_encodeWith_cut :
    Codec.standard.IsUtf16 id ∧
    ((∀ t ∈ ["\xef\xbb\xbf", "\xf0\x9d\x84\x9ez"], IsUtf8 t) ∧
      String.join ["\xef", "\xbb\xbf\xf0\x9d", "", "\x84\x9ez"] =
        String.join ["\xef\xbb\xbf", "\xf0\x9d\x84\x9ez"]) ∧
    encode .utf16 ["\xef", "\xbb\xbf\xf0\x9d", "", "\x84\x9ez"] =
      "\xff\xfe\xff\xfe\x34\xd8\x1e\xddz\x00".toList ∧
    decodeText (String.ofList (encode .utf16 ["\xef", "\xbb\xbf\xf0\x9d", "", "\x84\x9ez"])) =
      "\xef\xbb\xbf\xf0\x9d\x84\x9ez" := by
  have valid : ∀ t ∈ ["\xef\xbb\xbf", "\xf0\x9d\x84\x9ez"], IsUtf8 t := by
    simp only [List.mem_cons, List.not_mem_nil, or_false, forall_eq_or_imp, forall_eq]
    exact ⟨⟨"\uFEFF", by decide⟩, ⟨"𝄞z", by decide⟩⟩
  have cut : String.join ["\xef", "\xbb\xbf\xf0\x9d", "", "\x84\x9ez"] =
      String.join ["\xef\xbb\xbf", "\xf0\x9d\x84\x9ez"] := by decide
  obtain ⟨hbytes, hread, -⟩ := decodeWith_encodeWith Codec.isUtf16_standard valid cut
  have hjoin : String.join ["\xef\xbb\xbf", "\xf0\x9d\x84\x9ez"] = ofUnicode "\uFEFF𝄞z" := by decide
  refine ⟨Codec.isUtf16_standard, ⟨valid, cut⟩, ?_, ?_⟩
  · rw [encode, hbytes, hjoin, toUnicode_ofUnicode]
    decide
  · rw [decodeText, encode, hread]
    rfl

end ScriptLift.Encoder
