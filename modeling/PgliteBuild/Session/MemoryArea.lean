import PgliteBuild.Session.Basic

/-! # Packets in the memory area

In the memory area data is buffered up to the end of the packet, so that the loop goes on from turn to
turn until the packet, the session or the patience of the error handler ends. -/

namespace PgliteBuild

open Framing

variable {σ : Type} {b b' : Build} (B : Backend σ) {n p : ℕ} {t : Turn} {ts : List Turn} (S : Session σ)

/-- Data is buffered before the end of the packet. -/
theorem more_cma (p : ℕ) : Transport.more b .cma n p = decide (p ≠ n) := by
  simp [Transport.more, Transport.Cut]

/-- Only the empty packet has no bytes. -/
theorem encodeTurns_eq_nil : encodeTurns ts = [] ↔ ts = [] := by
  cases ts with
  | nil => simp
  | cons t ts => simp [Turn.encode, Msg.encode]

/-- After a turn data is buffered unless it was the last one. -/
theorem more_after (hn : p + (encodeTurns (t :: ts)).length = n) :
    Transport.more b .cma n (p + t.encode.length) = !ts.isEmpty := by
  rw [encodeTurns_cons, List.length_append] at hn
  rw [more_cma, Bool.eq_iff_iff]
  have hlen : (encodeTurns ts).length = 0 ↔ ts = [] := by
    rw [List.length_eq_zero_iff, encodeTurns_eq_nil]
  cases hts : ts with
  | nil =>
      have hzero := hlen.mpr hts
      simp only [List.isEmpty_nil, Bool.not_true, Bool.false_eq_true, iff_false, decide_eq_true_eq]
      omega
  | cons x xs =>
      have hpos : (encodeTurns ts).length ≠ 0 := fun h => by cases hts.symm.trans (hlen.mp h)
      simp only [List.isEmpty_cons, Bool.not_false, iff_true, decide_eq_true_eq]
      omega

/-- In the memory area the turn after a turn is played, if there is one: where data is left behind a turn,
there was data behind its message. -/
theorem onward_cma (hn : p + (encodeTurns (t :: ts)).length = n) {pipelining : Bool}
    (hflag : Transport.more b .cma n (p + t.toMsg.encode.length) = true → pipelining = true) :
    S.onward b' B (Transport.more b .cma n) p t ts pipelining =
      S.play b' B (Transport.more b .cma n) (p + t.encode.length) ts := by
  rw [Session.onward, more_after hn]
  cases ts with
  | nil =>
      rw [List.isEmpty_nil, Bool.not_true, Bool.and_false]
      rfl
  | cons t' ts =>
      have hbefore : Transport.more b .cma n (p + t.toMsg.encode.length) = true := by
        have hmsg := t.length_encode
        have hmsg' := t'.length_encode
        simp only [encodeTurns_cons, List.length_append] at hn
        rw [more_cma, Msg.length_encode]
        exact decide_eq_true (by omega)
      rw [hflag hbefore]
      rfl

end PgliteBuild
