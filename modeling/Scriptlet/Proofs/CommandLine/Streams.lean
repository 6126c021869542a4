/-
  Scriptlet/Proofs/CommandLine/Streams.lean
  =========================================
  **Standard input, line by line** — at the bytes of a text, the standard streams answer as a
  buffer with the lines of that text does (`Streams.simulation`).  So a run on the streams and
  one on the buffer are the same run (`Streams.exec_simulates`).

  `textLines` says what the lines of a text are, by what stands between its newlines.  The
  streams know nothing of them: they look for the next newline among the bytes that are left,
  with no regard to characters.  This agrees because a byte below 128 is always a character of
  its own, so that a newline is found among the bytes only where there is one in the text.
-/
import Scriptlet.CommandLine.Streams
import Scriptlet.Proofs.Execution.Simulation

namespace Scriptlet.CommandLine

/-! ### Lines -/

/-- What a line end leaves of the line in front of it: a carriage return there belongs to the
    line end. -/
def withoutReturn (cs : List Char) : List Char :=
  if cs.getLast? = some '\r' then cs.dropLast else cs

/-- The lines of a text, given by what stands between its newlines.  Behind the last newline
    there is a line only if there is something, and all of it belongs to that line. -/
def linesOf : List (List Char) → List (List Char)
  | [] => []
  | [last] => if last.isEmpty then [] else [last]
  | part :: parts => withoutReturn part :: linesOf parts

/-- The lines of a text. -/
def textLines (text : String) : List String :=
  (linesOf (text.toList.splitOn '\n')).map String.ofList

theorem linesOf_cons {part : List Char} {parts : List (List Char)} (h : parts ≠ []) :
    linesOf (part :: parts) = withoutReturn part :: linesOf parts := by
  cases parts with
  | nil => exact absurd rfl h
  | cons next parts => rfl

theorem textLines_newline {part : List Char} (h : '\n' ∉ part) (rest : List Char) :
    textLines (.ofList (part ++ '\n' :: rest)) =
      .ofList (withoutReturn part) :: textLines (.ofList rest) := by
  rw [textLines, textLines, String.toList_ofList, String.toList_ofList,
    List.splitOn_append_cons_self_of_not_mem h, linesOf_cons (List.splitOn_ne_nil _ _),
    List.map_cons]

theorem textLines_last {last : List Char} (h : '\n' ∉ last) (hne : last ≠ []) :
    textLines (.ofList last) = [.ofList last] := by
  rw [textLines, String.toList_ofList, List.splitOn_eq_singleton h, linesOf,
    if_neg (by simpa using hne), List.map_singleton]

example : textLines "a\r\r\n\nb\r" = ["a\r", "", "b\r"] := by decide

/-- Dropping a line end that is there leaves the line without its carriage return. -/
theorem stripLineEnding_newline (part : List Char) :
    stripLineEnding (.ofList (part ++ ['\n'])) = .ofList (withoutReturn part) := by
  rcases List.eq_nil_or_concat part with rfl | ⟨front, c, rfl⟩
  · rfl
  · rw [stripLineEnding, String.toList_ofList, List.concat_eq_append]
    by_cases hc : c = '\r'
    · subst hc
      simp [withoutReturn]
    · simp only [List.reverse_append, List.reverse_singleton, List.singleton_append]
      split
      · next heq =>
        cases heq
        exact absurd rfl hc
      · next heq =>
        cases heq
        simp [withoutReturn, hc]
      · next hnone => exact absurd rfl (hnone _)

theorem stripLineEnding_last {last : List Char} (h : '\n' ∉ last) :
    stripLineEnding (.ofList last) = .ofList last := by
  have hends : ∀ text, last.reverse ≠ '\n' :: text := by
    intro text heq
    apply h
    rw [← List.mem_reverse, heq]
    exact List.mem_cons_self
  rw [stripLineEnding, String.toList_ofList]
  split
  · next heq => exact absurd heq (hends _)
  · next heq => exact absurd heq (hends _)
  · rfl

/-! ### Bytes -/

/-- The bytes of characters in UTF-8. -/
def encode (cs : List Char) : List UInt8 := cs.flatMap String.utf8EncodeChar

@[simp] theorem encode_nil : encode [] = [] := rfl

@[simp] theorem encode_append (cs cs' : List Char) : encode (cs ++ cs') = encode cs ++ encode cs' :=
  List.flatMap_append

theorem encode_cons (c : Char) (cs : List Char) :
    encode (c :: cs) = String.utf8EncodeChar c ++ encode cs := List.flatMap_cons

theorem encode_newline (cs : List Char) : encode ('\n' :: cs) = 10 :: encode cs := rfl

theorem encode_eq_nil_iff {cs : List Char} : encode cs = [] ↔ cs = [] := by
  cases cs with
  | nil => simp
  | cons c cs => simp [encode_cons]

/-- A byte below 128 is a character of its own. -/
theorem toNat_of_mem_utf8EncodeChar {c : Char} {b : UInt8} (hb : b ∈ String.utf8EncodeChar c)
    (hlow : b.toNat < 128) : b.toNat = c.toNat := by
  have hval : c.val.toNat = c.toNat := rfl
  unfold String.utf8EncodeChar at hb
  simp only [hval] at hb
  split at hb
  · obtain rfl := List.mem_singleton.1 hb
    rw [UInt8.toNat_ofNat']
    omega
  · -- all bytes of the longer sequences have their highest bit set
    exfalso
    split at hb
    · simp only [List.mem_cons, List.not_mem_nil, or_false] at hb
      rcases hb with rfl | rfl <;> rw [UInt8.toNat_ofNat'] at hlow <;> omega
    · split at hb
      · simp only [List.mem_cons, List.not_mem_nil, or_false] at hb
        rcases hb with rfl | rfl | rfl <;> rw [UInt8.toNat_ofNat'] at hlow <;> omega
      · simp only [List.mem_cons, List.not_mem_nil, or_false] at hb
        rcases hb with rfl | rfl | rfl | rfl <;> rw [UInt8.toNat_ofNat'] at hlow <;> omega

/-- The bytes of a text have a newline only where the text has one. -/
theorem newline_not_mem_encode {cs : List Char} (h : '\n' ∉ cs) : 10 ∉ encode cs := by
  intro hmem
  obtain ⟨c, hc, hb⟩ := List.mem_flatMap.1 hmem
  have hnat : (10 : UInt8).toNat = c.toNat := toNat_of_mem_utf8EncodeChar hb (by decide)
  have hnewline : c = '\n' := Char.toNat_inj.1 hnat.symm
  exact h (hnewline ▸ hc)

theorem toList_eq_data_toList (bytes : ByteArray) : bytes.toList = bytes.data.toList := by
  have hloop : ∀ (i : Nat) (front : List UInt8),
      ByteArray.toList.loop bytes i front = front.reverse ++ bytes.data.toList.drop i := by
    intro i front
    fun_induction ByteArray.toList.loop bytes i front with
    | case1 i front h ih =>
      have hi : i < bytes.data.toList.length := by simpa using h
      rw [ih, List.drop_eq_getElem_cons hi]
      simp [ByteArray.get!, h]
    | case2 i front h =>
      rw [List.drop_eq_nil_of_le (by simpa using h), List.append_nil]
  exact hloop 0 []

theorem toList_toUTF8 (text : String) : text.toUTF8.toList = encode text.toList := by
  rw [toList_eq_data_toList, String.toUTF8, ← String.utf8Encode_toList]
  exact List.toList_data_toByteArray

/-- A text is read back from its bytes. -/
theorem fromUTF8?_toUTF8 (text : String) : String.fromUTF8? text.toUTF8 = some text := by
  have hvalid : text.toUTF8.IsValidUTF8 := text.isValidUTF8
  rw [String.fromUTF8?, dif_pos hvalid]
  rfl

theorem fromUTF8?_encode (cs : List Char) :
    String.fromUTF8? ⟨(encode cs).toArray⟩ = some (.ofList cs) := by
  have hbytes : (⟨(encode cs).toArray⟩ : ByteArray) = (String.ofList cs).toUTF8 := by
    rw [String.toUTF8, String.toByteArray_ofList]
    apply ByteArray.ext
    apply Array.toList_inj.1
    exact List.toList_data_toByteArray.symm
  rw [hbytes, fromUTF8?_toUTF8]

/-! ### Reading a line -/

theorem splitLine_newline {bytes : List UInt8} (h : 10 ∉ bytes) (rest : List UInt8) :
    splitLine (bytes ++ 10 :: rest) = (bytes ++ [10], rest) := by
  induction bytes with
  | nil => rfl
  | cons b bytes ih =>
    rw [List.mem_cons, not_or] at h
    rw [List.cons_append, splitLine, if_neg (Ne.symm h.1), ih h.2]
    rfl

theorem splitLine_last {bytes : List UInt8} (h : 10 ∉ bytes) : splitLine bytes = (bytes, []) := by
  induction bytes with
  | nil => rfl
  | cons b bytes ih =>
    rw [List.mem_cons, not_or] at h
    rw [splitLine, if_neg (Ne.symm h.1), ih h.2]

namespace Streams

variable (output : String)

/-- What a read does whose line is found and is a text. -/
theorem readLine_of_splitLine {input rest : List UInt8} {line : List Char}
    (h : splitLine input = (encode line, rest)) (hne : line ≠ []) :
    Console.readLine (⟨input, output⟩ : Streams) =
      .ok (some (stripLineEnding (.ofList line))) ⟨rest, output⟩ := by
  have hsome : (encode line).isEmpty = false := by
    rw [List.isEmpty_eq_false_iff]
    exact mt encode_eq_nil_iff.1 hne
  simp only [Console.readLine, h, hsome, fromUTF8?_encode, Bool.false_eq_true, if_false]

theorem readLine_newline {part : List Char} (h : '\n' ∉ part) (rest : List Char) :
    Console.readLine (⟨encode (part ++ '\n' :: rest), output⟩ : Streams) =
      .ok (some (.ofList (withoutReturn part))) ⟨encode rest, output⟩ := by
  have hsplit : splitLine (encode (part ++ '\n' :: rest)) =
      (encode (part ++ ['\n']), encode rest) := by
    rw [encode_append, encode_newline, splitLine_newline (newline_not_mem_encode h), encode_append]
    rfl
  rw [readLine_of_splitLine output hsplit (by simp), stripLineEnding_newline]

theorem readLine_last {last : List Char} (h : '\n' ∉ last) (hne : last ≠ []) :
    Console.readLine (⟨encode last, output⟩ : Streams) =
      .ok (some (.ofList last)) ⟨[], output⟩ := by
  rw [readLine_of_splitLine output (splitLine_last (newline_not_mem_encode h)) hne,
    stripLineEnding_last h]

/-! ### Streams and buffers -/

/-- The same has been written at both, and the lines of the buffer are those of a text whose
    bytes are left to be read. -/
structure Agrees (s : Streams) (b : Buffer) : Prop where
  output : s.output = b.output
  input : ∃ cs, s.input = encode cs ∧ b.unread = textLines (.ofList cs)

theorem agrees_ofInput (text : String) :
    Agrees (.ofInput text.toUTF8) (.ofLines (textLines text)) where
  output := rfl
  input := ⟨text.toList, toList_toUTF8 text, by rw [String.ofList_toList]; rfl⟩

theorem write_simulates (text : String) :
    Simulates Agrees (Console.write text) (Console.write text) := by
  intro s b h
  exact .ok ⟨congrArg (· ++ text) h.output, h.input⟩

/-- A line read from the streams is the next line of the buffer.  The cases are what is left of
    the text: something up to a newline, something without one, and nothing. -/
theorem readLine_simulates : Simulates Agrees Console.readLine Console.readLine := by
  rintro ⟨_, output⟩ ⟨_, _⟩ ⟨rfl, cs, rfl, rfl⟩
  by_cases hnewline : '\n' ∈ cs
  · obtain ⟨part, rest, rfl, hpart⟩ := List.eq_append_cons_of_mem hnewline
    rw [readLine_newline output hpart rest, textLines_newline hpart rest]
    exact .ok ⟨rfl, rest, rfl, rfl⟩
  · by_cases hnil : cs = []
    · subst hnil
      exact .ok ⟨rfl, [], rfl, rfl⟩
    · rw [readLine_last output hnewline hnil, textLines_last hnewline hnil]
      exact .ok ⟨rfl, [], rfl, rfl⟩

/-- Each call of the streams is answered as the buffer answers it. -/
theorem simulation : Console.Simulation Agrees where
  write := write_simulates
  readLine := readLine_simulates

/-- **A run on the streams** ends as the run on the lines of the input does. -/
theorem exec_simulates (cfg : Settings) (fuel : Nat) (c : Command) (stdin : String) :
    EndsAlike (Machine.Alike Agrees)
      (c.exec cfg fuel { console := Streams.ofInput stdin.toUTF8 })
      (c.exec cfg fuel { console := Buffer.ofLines (textLines stdin) }) :=
  c.exec_simulates simulation cfg fuel ⟨rfl, agrees_ofInput stdin⟩

end Streams

end Scriptlet.CommandLine
