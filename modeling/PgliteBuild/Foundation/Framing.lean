import Mathlib.Data.List.Basic
import Mathlib.Tactic.Common

/-! # Length-prefixed bodies on a byte stream

A body travels as a big-endian 32-bit length word, which counts itself, followed by that many bytes
less four. `readBody` says what a reader with a length limit finds at the head of a byte stream;
`encodeBody` is the writer's side, and `readBody_encodeBody` the round trip.

A message is a type byte and a body. `decodeMessages` reads a stream to its end as messages, and
`decodeMessages_eq_some_iff` says that it reads what `encodeMessages` writes, and nothing else. -/

namespace Framing

/-! ## Big-endian words -/

/-- The value of a big-endian byte string. -/
def wordValue (bs : List UInt8) : ℕ := bs.foldl (fun n b => n * 256 + b.toNat) 0

/-- The four bytes of a big-endian 32-bit word. -/
def word32 (n : ℕ) : List UInt8 :=
  [UInt8.ofNat (n / 16777216), UInt8.ofNat (n / 65536), UInt8.ofNat (n / 256), UInt8.ofNat n]

@[simp] theorem length_word32 (n : ℕ) : (word32 n).length = 4 := rfl

/-- A 32-bit word read back is the number written. -/
@[simp] theorem wordValue_word32 {n : ℕ} (h : n < 4294967296) : wordValue (word32 n) = n := by
  simp only [wordValue, word32, List.foldl, UInt8.toNat_ofNat']
  omega

/-- Four bytes are the word of their value. -/
theorem word32_wordValue {bs : List UInt8} (h : bs.length = 4) : word32 (wordValue bs) = bs := by
  match bs, h with
  | [w, x, y, z], _ =>
      have hw := w.toNat_lt
      have hx := x.toNat_lt
      have hy := y.toNat_lt
      have hz := z.toNat_lt
      have hvalue : wordValue [w, x, y, z] =
          ((w.toNat * 256 + x.toNat) * 256 + y.toNat) * 256 + z.toNat := by
        simp [wordValue]
      rw [hvalue]
      simp only [word32, List.cons.injEq, and_true]
      refine ⟨?_, ?_, ?_, ?_⟩
      all_goals
        apply UInt8.toNat_inj.mp
        rw [UInt8.toNat_ofNat']
        omega

/-! ## Reading and writing bodies -/

/-- What a reader finds at the head of a stream. -/
inductive BodyRead where
  /-- The stream ends inside the length word or inside the body. -/
  | short
  /-- The length word is out of range; the stream goes on after it. -/
  | badLength (rest : List UInt8)
  /-- A whole body, and the stream after it. -/
  | body (body rest : List UInt8)
  deriving DecidableEq

/-- The body that was read, if one was. -/
def BodyRead.body? : BodyRead → Option (List UInt8)
  | .body bytes _ => some bytes
  | .short | .badLength _ => none

/-- What is left of the stream; a reader that runs short has read all of it. -/
def BodyRead.rest : BodyRead → List UInt8
  | .short => []
  | .badLength u | .body _ u => u

/-- Read a body whose length word is at least 4 and at most `maxlen`. -/
def readBody (maxlen : ℕ) (u : List UInt8) : BodyRead :=
  if u.length < 4 then .short
  else if wordValue (u.take 4) < 4 ∨ maxlen < wordValue (u.take 4) then .badLength (u.drop 4)
  else if (u.drop 4).length < wordValue (u.take 4) - 4 then .short
  else .body ((u.drop 4).take (wordValue (u.take 4) - 4)) ((u.drop 4).drop (wordValue (u.take 4) - 4))

/-- A body is read when its length word is whole and in range, and all that it counts is there. -/
theorem body?_isSome_iff (maxlen : ℕ) (u : List UInt8) :
    (readBody maxlen u).body?.isSome = true ↔ 4 ≤ wordValue (u.take 4) ∧
      wordValue (u.take 4) ≤ maxlen ∧ wordValue (u.take 4) ≤ u.length ∧ 4 ≤ u.length := by
  unfold readBody
  rw [List.length_drop]
  split_ifs with hshort hbad hlong
  · exact ⟨fun h => (by cases h), fun h => absurd h.2.2.2 (by omega)⟩
  · exact ⟨fun h => (by cases h), fun h => absurd hbad (by omega)⟩
  · exact ⟨fun h => (by cases h), fun h => absurd h.2.2.1 (by omega)⟩
  · exact ⟨fun _ => by omega, fun _ => rfl⟩

/-- The bytes of a body on the stream. -/
def encodeBody (body : List UInt8) : List UInt8 := word32 (body.length + 4) ++ body

@[simp] theorem length_encodeBody (body : List UInt8) :
    (encodeBody body).length = body.length + 4 := by
  simp [encodeBody, Nat.add_comm]

/-- **Round trip**: a body within the limit is read back whole, and the stream goes on after it. -/
theorem readBody_encodeBody {maxlen : ℕ} {body : List UInt8} (rest : List UInt8)
    (hmax : body.length + 4 ≤ maxlen) (hword : body.length + 4 < 4294967296) :
    readBody maxlen (encodeBody body ++ rest) = .body body rest := by
  have htake : (encodeBody body ++ rest).take 4 = word32 (body.length + 4) := by
    rw [encodeBody, List.append_assoc]
    exact List.take_left' rfl
  have hdrop : (encodeBody body ++ rest).drop 4 = body ++ rest := by
    rw [encodeBody, List.append_assoc]
    exact List.drop_left' rfl
  rw [readBody, htake, hdrop, wordValue_word32 hword, if_neg (by simp; omega), if_neg (by omega),
    if_neg (by simp)]
  simp

/-- A body that was read is within the limit, and its encoding was the head of the stream. -/
theorem eq_encodeBody_of_readBody {maxlen : ℕ} {u body rest : List UInt8}
    (h : readBody maxlen u = .body body rest) :
    body.length + 4 ≤ maxlen ∧ u = encodeBody body ++ rest := by
  unfold readBody at h
  split_ifs at h with hshort hbad hlong
  obtain ⟨rfl, rfl⟩ : _ = body ∧ _ = rest := BodyRead.body.inj h
  have hlen : ((u.drop 4).take (wordValue (u.take 4) - 4)).length + 4 = wordValue (u.take 4) := by
    rw [List.length_take]
    omega
  refine ⟨by omega, ?_⟩
  have htake : (u.take 4).length = 4 := by
    rw [List.length_take]
    omega
  rw [encodeBody, hlen, word32_wordValue htake, List.append_assoc, List.take_append_drop,
    List.take_append_drop]

/-! ## Streams of messages -/

/-- The bytes of messages, each a type byte and a body. -/
def encodeMessages (ms : List (UInt8 × List UInt8)) : List UInt8 := ms.flatMap fun m => m.1 :: encodeBody m.2

@[simp] theorem encodeMessages_nil : encodeMessages [] = [] := rfl

/-- A stream of messages is the first, and the stream of the others. -/
theorem encodeMessages_cons (m : UInt8 × List UInt8) (ms : List (UInt8 × List UInt8)) :
    encodeMessages (m :: ms) = m.1 :: (encodeBody m.2 ++ encodeMessages ms) := rfl

@[simp] theorem encodeMessages_append (ms ms' : List (UInt8 × List UInt8)) :
    encodeMessages (ms ++ ms') = encodeMessages ms ++ encodeMessages ms' := List.flatMap_append

/-- Read a stream to its end as at most `n` messages. -/
def decodeUpTo : ℕ → List UInt8 → Option (List (UInt8 × List UInt8))
  | _, [] => some []
  | 0, _ :: _ => none
  | n + 1, t :: u =>
    match readBody 4294967295 u with
    | .body body rest => (decodeUpTo n rest).map ((t, body) :: ·)
    | .short | .badLength _ => none

/-- Read a stream to its end as messages. -/
def decodeMessages (u : List UInt8) : Option (List (UInt8 × List UInt8)) := decodeUpTo u.length u

/-- The body fits its length word. -/
def Fits (m : UInt8 × List UInt8) : Prop := m.2.length + 4 < 4294967296

/-- The decoder reads messages that fit back, with enough steps. -/
theorem decodeUpTo_encodeMessages {ms : List (UInt8 × List UInt8)} (hfit : ∀ m ∈ ms, Fits m) {n : ℕ}
    (hn : ms.length ≤ n) : decodeUpTo n (encodeMessages ms) = some ms := by
  induction ms generalizing n with
  | nil =>
      rw [encodeMessages_nil]
      cases n <;> rfl
  | cons m ms ih =>
      obtain ⟨hfirst, hrest⟩ := List.forall_mem_cons.mp hfit
      have hword : m.2.length + 4 < 4294967296 := hfirst
      rw [List.length_cons] at hn
      obtain ⟨n, rfl⟩ : ∃ k, n = k + 1 := ⟨n - 1, by omega⟩
      rw [encodeMessages_cons, decodeUpTo, readBody_encodeBody _ (by omega) hword]
      simp only
      rw [ih hrest (by omega)]
      rfl

/-- What the decoder reads encodes to what it read. -/
theorem eq_encodeMessages_of_decodeUpTo {n : ℕ} {u : List UInt8} {ms : List (UInt8 × List UInt8)}
    (h : decodeUpTo n u = some ms) : u = encodeMessages ms ∧ ∀ m ∈ ms, Fits m := by
  induction n generalizing u ms with
  | zero =>
      cases u with
      | nil =>
          cases h
          exact ⟨rfl, by simp⟩
      | cons t u => cases h
  | succ n ih =>
      cases u with
      | nil =>
          cases h
          exact ⟨rfl, by simp⟩
      | cons t u =>
          rw [decodeUpTo] at h
          cases hread : readBody 4294967295 u with
          | short => simp [hread] at h
          | badLength rest => simp [hread] at h
          | body body rest =>
              -- the first message is the head of the stream, and the rest is shorter by one message
              rw [hread] at h
              obtain ⟨ms', hms', rfl⟩ := Option.map_eq_some_iff.mp h
              obtain ⟨hlen, rfl⟩ := eq_encodeBody_of_readBody hread
              obtain ⟨rfl, hfit⟩ := ih hms'
              refine ⟨rfl, List.forall_mem_cons.mpr ⟨?_, hfit⟩⟩
              show body.length + 4 < 4294967296
              omega

/-- Messages have at least as many bytes as there are messages. -/
theorem length_le_length_encodeMessages (ms : List (UInt8 × List UInt8)) :
    ms.length ≤ (encodeMessages ms).length := by
  induction ms with
  | nil => exact Nat.zero_le _
  | cons m ms ih =>
      rw [encodeMessages_cons, List.length_cons, List.length_cons, List.length_append]
      omega

/-- **Round trip**: what is read to its end is what is written. -/
theorem decodeMessages_eq_some_iff {u : List UInt8} {ms : List (UInt8 × List UInt8)} :
    decodeMessages u = some ms ↔ u = encodeMessages ms ∧ ∀ m ∈ ms, Fits m := by
  constructor
  · exact eq_encodeMessages_of_decodeUpTo
  · rintro ⟨rfl, hfit⟩
    exact decodeUpTo_encodeMessages hfit (length_le_length_encodeMessages ms)

/-- Streams that end between messages are read one after the other. -/
theorem decodeMessages_append {u v : List UInt8} {ms ms' : List (UInt8 × List UInt8)}
    (h : decodeMessages u = some ms) (h' : decodeMessages v = some ms') :
    decodeMessages (u ++ v) = some (ms ++ ms') := by
  obtain ⟨rfl, hfit⟩ := decodeMessages_eq_some_iff.mp h
  obtain ⟨rfl, hfit'⟩ := decodeMessages_eq_some_iff.mp h'
  apply decodeMessages_eq_some_iff.mpr
  rw [encodeMessages_append]
  exact ⟨rfl, List.forall_mem_append.mpr ⟨hfit, hfit'⟩⟩

end Framing
