import Rmcast.Lib.Word

/-!
# The qtfb wire protocol

The packed structs of `qtfb/protocol.h`. Every message is a record of 32-bit
words that starts with `MAGIC` and a tag; there is no length prefix, so the
tag alone fixes the size (`Tag.size`). `Message` is what a client may send.
-/

namespace Rmcast.Qtfb

open Word

/-! ## §1  Headers -/

/-- 'VCK1'. -/
def MAGIC : UInt32 := 0x56434B31

def VERSION : UInt32 := 1

inductive Tag where
  | HelloC2S
  | HelloAckS2C
  | Frame
  | InputS2C
  | CursorC2S
  | Bye
deriving DecidableEq, Repr

namespace Tag

def word : Tag → UInt32
  | HelloC2S => 0x01
  | HelloAckS2C => 0x02
  | Frame => 0x03
  | InputS2C => 0x04
  | CursorC2S => 0x05
  | Bye => 0xFF

/-- `static_cast<Tag>`; a word that is no enumerator takes the `default`
branch of every switch. -/
def ofWord (w : UInt32) : Option Tag :=
  if w = 0x01 then some HelloC2S
  else if w = 0x02 then some HelloAckS2C
  else if w = 0x03 then some Frame
  else if w = 0x04 then some InputS2C
  else if w = 0x05 then some CursorC2S
  else if w = 0xFF then some Bye
  else none

theorem ofWord_word (t : Tag) : ofWord t.word = some t := by
  cases t <;> rfl

theorem word_of_ofWord {w : UInt32} {t : Tag} (h : ofWord w = some t) :
    t.word = w := by
  unfold ofWord at h
  split_ifs at h with h1 h2 h3 h4 h5 h6
  all_goals
    obtain rfl := Option.some.inj h
    symm
    assumption

end Tag

/-- `sizeof(Header)`. -/
def headerSize : ℕ := 8

/-! ## §2  Messages -/

structure HelloC2S where
  clientVersion : UInt32
  requestedW : UInt32
  requestedH : UInt32
  /-- 0 is uncapped. -/
  requestedFps : UInt32
deriving DecidableEq, Repr

structure HelloAckS2C where
  accepted : UInt32
  w : UInt32
  h : UInt32
  stride : UInt32
  bpp : UInt32
  format : UInt32
  shmNameLen : UInt32
  /-- The 64 bytes of `shm_name`. -/
  shmName : List UInt8
deriving DecidableEq, Repr

/-- The bytes of the packed struct. -/
def HelloAckS2C.encode (ack : HelloAckS2C) : List UInt8 :=
  words [MAGIC, Tag.HelloAckS2C.word, ack.accepted, ack.w, ack.h, ack.stride,
    ack.bpp, ack.format, ack.shmNameLen] ++ ack.shmName

structure Frame where
  seq : UInt32
  x : UInt32
  y : UInt32
  w : UInt32
  h : UInt32
  mode : UInt32
deriving DecidableEq, Repr

/-- `x` and `y` are `int32_t` on the wire: their values are `toInt x` and
`toInt y`. -/
structure CursorC2S where
  x : UInt32
  y : UInt32
  w : UInt32
  h : UInt32
  visible : UInt32
deriving DecidableEq, Repr

structure Bye where
  reason : UInt32
deriving DecidableEq, Repr

/-- The messages a client may send. -/
inductive Message where
  | hello (m : HelloC2S)
  | frame (m : Frame)
  | cursor (m : CursorC2S)
  | bye (m : Bye)
deriving DecidableEq, Repr

namespace Message

def tag : Message → Tag
  | hello _ => .HelloC2S
  | frame _ => .Frame
  | cursor _ => .CursorC2S
  | bye _ => .Bye

def body : Message → List UInt32
  | hello m => [m.clientVersion, m.requestedW, m.requestedH, m.requestedFps]
  | frame m => [m.seq, m.x, m.y, m.w, m.h, m.mode]
  | cursor m => [m.x, m.y, m.w, m.h, m.visible]
  | bye m => [m.reason]

/-- The bytes of the packed struct. -/
def encode (m : Message) : List UInt8 :=
  words (MAGIC :: m.tag.word :: m.body)

/-- `sizeof` of the struct behind a tag, for the tags a client may send. -/
def size : Tag → Option ℕ
  | .HelloC2S => some 24
  | .Frame => some 32
  | .CursorC2S => some 28
  | .Bye => some 12
  | .HelloAckS2C | .InputS2C => none

/-- Read a struct from its words, header included. -/
def ofWords (t : Tag) (ws : List UInt32) : Option Message :=
  match t, ws with
  | .HelloC2S, [_, _, v, w, h, fps] => some (hello ⟨v, w, h, fps⟩)
  | .Frame, [_, _, seq, x, y, w, h, mode] =>
      some (frame ⟨seq, x, y, w, h, mode⟩)
  | .CursorC2S, [_, _, x, y, w, h, visible] =>
      some (cursor ⟨x, y, w, h, visible⟩)
  | .Bye, [_, _, reason] => some (bye ⟨reason⟩)
  | _, _ => none

theorem size_tag (m : Message) : size m.tag = some m.encode.length := by
  cases m <;> rfl

theorem encode_length_ge (m : Message) : headerSize ≤ m.encode.length := by
  cases m <;> simp [encode, body, headerSize]

theorem ofWords_encode (m : Message) :
    ofWords m.tag (readWords m.encode) = some m := by
  rw [encode, readWords_words]
  cases m <;> rfl

/-- A block of the right size under the tag's header is a message, and it is
the encoding of that message. -/
theorem ofWords_complete {t : Tag} {n : ℕ} {bs : List UInt8}
    (hsize : size t = some n) (hn : bs.length = n)
    (hhead : (readWords bs).take 2 = [MAGIC, t.word]) :
    ∃ m, ofWords t (readWords bs) = some m ∧ m.tag = t ∧ m.encode = bs := by
  have key : ∀ k, bs.length = 4 * k →
      words (readWords bs) = bs ∧ (readWords bs).length = k :=
    fun k hk => words_readWords hk
  generalize hws : readWords bs = ws at *
  cases t with
  | HelloC2S =>
      obtain rfl : 24 = n := Option.some.inj hsize
      obtain ⟨hw, hl⟩ := key 6 (by omega)
      match ws, hl with
      | [a, b, v, w, h, fps], _ =>
          simp only [List.take, List.cons.injEq, and_true] at hhead
          obtain ⟨rfl, rfl⟩ := hhead
          exact ⟨_, rfl, rfl, hw⟩
  | Frame =>
      obtain rfl : 32 = n := Option.some.inj hsize
      obtain ⟨hw, hl⟩ := key 8 (by omega)
      match ws, hl with
      | [a, b, seq, x, y, w, h, mode], _ =>
          simp only [List.take, List.cons.injEq, and_true] at hhead
          obtain ⟨rfl, rfl⟩ := hhead
          exact ⟨_, rfl, rfl, hw⟩
  | CursorC2S =>
      obtain rfl : 28 = n := Option.some.inj hsize
      obtain ⟨hw, hl⟩ := key 7 (by omega)
      match ws, hl with
      | [a, b, x, y, w, h, visible], _ =>
          simp only [List.take, List.cons.injEq, and_true] at hhead
          obtain ⟨rfl, rfl⟩ := hhead
          exact ⟨_, rfl, rfl, hw⟩
  | Bye =>
      obtain rfl : 12 = n := Option.some.inj hsize
      obtain ⟨hw, hl⟩ := key 3 (by omega)
      match ws, hl with
      | [a, b, reason], _ =>
          simp only [List.take, List.cons.injEq, and_true] at hhead
          obtain ⟨rfl, rfl⟩ := hhead
          exact ⟨_, rfl, rfl, hw⟩
  | HelloAckS2C => cases hsize
  | InputS2C => cases hsize

end Message

end Rmcast.Qtfb
