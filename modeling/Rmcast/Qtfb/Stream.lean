import Rmcast.Qtfb.Protocol

/-!
# A stream of messages

`front` is the decision the server makes about the front of its buffer
before it acts on it: the header is looked at first, then the size its tag
stands for. A stream starts with a complete message exactly when it starts
with the encoding of one (`front_eq_message_iff`), and no decision changes
when more bytes arrive (`front_append`).
-/

namespace Rmcast.Qtfb

open Word

/-! ## §1  The front of the buffer -/

inductive Front where
  /-- Not even a header, or less than the struct its tag stands for. -/
  | short
  | badMagic
  | badTag
  | message (m : Message)
deriving DecidableEq

/-- The struct of `n` bytes behind a tag, once it is complete. -/
def frontBody (t : Tag) (n : ℕ) (b : List UInt8) : Front :=
  if b.length < n then .short
  else match Message.ofWords t (readWords (b.take n)) with
  | some m => .message m
  | none => .short

def front (b : List UInt8) : Front :=
  if b.length < headerSize then .short
  else match readWords (b.take headerSize) with
  | [magic, tag] =>
      if magic ≠ MAGIC then .badMagic
      else match (Tag.ofWord tag).bind fun t => (Message.size t).map (t, ·) with
      | none => .badTag
      | some (t, n) => frontBody t n b
  | _ => .short

theorem encode_take_header (m : Message) (rest : List UInt8) :
    (m.encode ++ rest).take headerSize = words [MAGIC, m.tag.word] := by
  have h := words_take 2 (MAGIC :: m.tag.word :: m.body)
  rw [List.take_append_of_le_length m.encode_length_ge]
  exact h

theorem front_encode (m : Message) (rest : List UInt8) :
    front (m.encode ++ rest) = .message m := by
  have hge := m.encode_length_ge
  have hlen : ¬ (m.encode ++ rest).length < headerSize := by
    rw [List.length_append]
    omega
  have hn : ¬ (m.encode ++ rest).length < m.encode.length := by
    rw [List.length_append]
    omega
  unfold front
  rw [if_neg hlen, encode_take_header, readWords_words]
  simp only [ne_eq, not_true_eq_false, if_false, Tag.ofWord_word,
    Option.bind_some, Message.size_tag, Option.map_some, frontBody, if_neg hn,
    List.take_left', Message.ofWords_encode]

/-- The two words of a complete header. -/
theorem readWords_header {b : List UInt8} (h : headerSize ≤ b.length) :
    ∃ magic tag, readWords (b.take headerSize) = [magic, tag] := by
  have hlen : (b.take headerSize).length = 4 * 2 := by
    rw [List.length_take, headerSize] at *
    omega
  obtain ⟨-, hl⟩ := words_readWords hlen
  exact List.length_eq_two.mp hl

theorem readWords_take_two {b : List UInt8} {k : ℕ} (hk : 2 ≤ k)
    (hb : 4 * k ≤ b.length) :
    (readWords (b.take (4 * k))).take 2 = readWords (b.take headerSize) := by
  have hlen : (b.take (4 * k)).length = 4 * k := by
    rw [List.length_take]
    omega
  obtain ⟨hw, -⟩ := words_readWords hlen
  have e : b.take headerSize = (b.take (4 * k)).take (4 * 2) := by
    rw [List.take_take, headerSize]
    congr 1
    omega
  rw [e, ← hw, words_take, readWords_words, readWords_words]

theorem size_words {t : Tag} {n : ℕ} (h : Message.size t = some n) :
    ∃ k, n = 4 * k ∧ 2 ≤ k := by
  cases t with
  | HelloC2S => exact ⟨6, (Option.some.inj h).symm, by omega⟩
  | Frame => exact ⟨8, (Option.some.inj h).symm, by omega⟩
  | CursorC2S => exact ⟨7, (Option.some.inj h).symm, by omega⟩
  | Bye => exact ⟨3, (Option.some.inj h).symm, by omega⟩
  | HelloAckS2C => cases h
  | InputS2C => cases h

theorem encode_of_front {b : List UInt8} {m : Message}
    (h : front b = .message m) : ∃ rest, b = m.encode ++ rest := by
  unfold front at h
  split_ifs at h with hlen
  obtain ⟨magic, tag, hw⟩ := readWords_header (b := b) (by omega)
  rw [hw] at h
  simp only at h
  split_ifs at h with hmagic
  cases ht : Tag.ofWord tag with
  | none =>
      rw [ht] at h
      cases h
  | some t =>
      cases hn : Message.size t with
      | none =>
          rw [ht] at h
          simp only [Option.bind_some, hn] at h
          cases h
      | some n =>
          rw [ht] at h
          simp only [Option.bind_some, hn, Option.map_some, frontBody] at h
          split_ifs at h with hb
          obtain ⟨k, rfl, hk⟩ := size_words hn
          have hlen' : (b.take (4 * k)).length = 4 * k := by
            rw [List.length_take]
            omega
          have hhead : (readWords (b.take (4 * k))).take 2 = [MAGIC, t.word] := by
            rw [readWords_take_two hk (by omega), hw, Tag.word_of_ofWord ht]
            simp only [ne_eq, not_not] at hmagic
            rw [hmagic]
          obtain ⟨m', hm', -, hbytes⟩ :=
            Message.ofWords_complete hn hlen' hhead
          rw [hm'] at h
          obtain rfl := Front.message.inj h
          exact ⟨b.drop (4 * k), by rw [hbytes, List.take_append_drop]⟩

/-- **What is accepted as a message is the encoding of one.** -/
theorem front_eq_message_iff {b : List UInt8} {m : Message} :
    front b = .message m ↔ ∃ rest, b = m.encode ++ rest := by
  constructor
  · exact encode_of_front
  · rintro ⟨rest, rfl⟩
    exact front_encode m rest

/-- The encodings form a prefix code. -/
theorem encode_append_inj {m m' : Message} {r r' : List UInt8}
    (h : m.encode ++ r = m'.encode ++ r') : m = m' ∧ r = r' := by
  have hm : m = m' := by
    have h1 := front_encode m r
    rw [h, front_encode] at h1
    exact (Front.message.inj h1).symm
  subst hm
  exact ⟨rfl, List.append_cancel_left h⟩

theorem front_of_header {b : List UInt8} {magic tag : UInt32}
    (hlen : headerSize ≤ b.length)
    (hw : readWords (b.take headerSize) = [magic, tag]) :
    front b = if magic ≠ MAGIC then .badMagic
      else match (Tag.ofWord tag).bind fun t => (Message.size t).map (t, ·) with
      | none => .badTag
      | some (t, n) => frontBody t n b := by
  unfold front
  rw [if_neg (by omega), hw]

theorem frontBody_cases (t : Tag) (n : ℕ) (b : List UInt8) :
    frontBody t n b = .short ∨ ∃ m, frontBody t n b = .message m := by
  unfold frontBody
  split_ifs
  · exact Or.inl rfl
  · cases Message.ofWords t (readWords (b.take n)) with
    | none => exact Or.inl rfl
    | some m => exact Or.inr ⟨m, rfl⟩

/-- A decision once made stands. -/
theorem front_append {b : List UInt8} (c : List UInt8) (h : front b ≠ .short) :
    front (b ++ c) = front b := by
  have hlen : headerSize ≤ b.length := by
    by_contra hlt
    apply h
    unfold front
    rw [if_pos (by omega)]
  obtain ⟨magic, tag, hw⟩ := readWords_header hlen
  have hlen' : headerSize ≤ (b ++ c).length := by
    rw [List.length_append]
    omega
  have hw' : readWords ((b ++ c).take headerSize) = [magic, tag] := by
    rw [List.take_append_of_le_length hlen, hw]
  by_cases hm : ∃ m, front b = .message m
  · obtain ⟨m, hm⟩ := hm
    obtain ⟨rest, rfl⟩ := encode_of_front hm
    rw [List.append_assoc, front_encode, front_encode]
  · rw [front_of_header hlen hw] at h hm ⊢
    rw [front_of_header hlen' hw']
    by_cases hmagic : magic ≠ MAGIC
    · rw [if_pos hmagic, if_pos hmagic]
    · rw [if_neg hmagic] at h hm ⊢
      rw [if_neg hmagic]
      cases ht : (Tag.ofWord tag).bind fun t => (Message.size t).map (t, ·) with
      | none => rfl
      | some tn =>
          -- the body decides only when it is complete
          rw [ht] at h hm
          rcases frontBody_cases tn.1 tn.2 b with hs | hs
          · exact absurd hs h
          · exact absurd hs hm

theorem front_nil : front [] = .short := rfl

/-- The beginning of a message is waited on. -/
theorem front_incomplete {b c : List UInt8} {m : Message}
    (h : b ++ c = m.encode) (hc : c ≠ []) : front b = .short := by
  by_contra hb
  have hm : front b = .message m := by
    rw [← front_append c hb, h, ← List.append_nil m.encode, front_encode]
  obtain ⟨rest, rfl⟩ := encode_of_front hm
  rw [List.append_assoc] at h
  have hnil := List.append_right_eq_self.mp h
  exact hc (List.append_eq_nil_iff.mp hnil).2

/-! ## §2  The messages of a stream -/

/-- The bytes of a sequence of messages. -/
def encodeAll (ms : List Message) : List UInt8 := ms.flatMap Message.encode

@[simp] theorem encodeAll_nil : encodeAll [] = [] := rfl

@[simp] theorem encodeAll_cons (m : Message) (ms : List Message) :
    encodeAll (m :: ms) = m.encode ++ encodeAll ms := rfl

theorem encodeAll_append (ms ms' : List Message) :
    encodeAll (ms ++ ms') = encodeAll ms ++ encodeAll ms' :=
  List.flatMap_append

/-- Of two readings of a stream one extends the other. -/
theorem encodeAll_prefix {ms ms' : List Message} {r r' : List UInt8}
    (h : encodeAll ms ++ r = encodeAll ms' ++ r') :
    ms <+: ms' ∨ ms' <+: ms := by
  induction ms generalizing ms' with
  | nil => exact Or.inl (List.nil_prefix)
  | cons m ms ih =>
      cases ms' with
      | nil => exact Or.inr (List.nil_prefix)
      | cons m' ms' =>
          rw [encodeAll_cons, encodeAll_cons, List.append_assoc,
            List.append_assoc] at h
          obtain ⟨rfl, hrest⟩ := encode_append_inj h
          rcases ih hrest with hp | hp
          · exact Or.inl ((List.prefix_cons_inj m).mpr hp)
          · exact Or.inr ((List.prefix_cons_inj m).mpr hp)

/-- A stream begins with its own messages. -/
theorem prefix_of_encodeAll {ms ms' : List Message} {r : List UInt8}
    (h : encodeAll ms = encodeAll ms' ++ r) : ms' <+: ms := by
  induction ms' generalizing ms with
  | nil => exact List.nil_prefix
  | cons m' ms' ih =>
      cases ms with
      | nil =>
          have hge := m'.encode_length_ge
          have hlen := congrArg List.length h
          rw [encodeAll_nil, encodeAll_cons, List.append_assoc,
            List.length_append, headerSize] at *
          simp only [List.length_nil] at hlen
          omega
      | cons m ms =>
          rw [encodeAll_cons, encodeAll_cons, List.append_assoc] at h
          obtain ⟨rfl, hrest⟩ := encode_append_inj h
          exact (List.prefix_cons_inj m).mpr (ih hrest)

end Rmcast.Qtfb
