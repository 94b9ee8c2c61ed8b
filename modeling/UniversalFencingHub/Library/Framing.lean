import Mathlib.Data.List.Infix

namespace framing

/-- A decoder that takes one message off the front of a stream. It consumes
something, and its answer does not change when more of the stream arrives. -/
structure Incremental {A M : Type} (next : List A → Option (M × List A)) : Prop where
  shorter : ∀ stream message rest, next stream = some (message, rest) → rest.length < stream.length
  stable : ∀ stream message rest more, next stream = some (message, rest) →
    next (stream ++ more) = some (message, rest ++ more)

/-- The messages at the front of a stream, at most `fuel` of them, and what follows. -/
def parse {A M : Type} (next : List A → Option (M × List A)) : Nat → List A → List M × List A
  | 0, stream => ([], stream)
  | fuel + 1, stream =>
    match next stream with
    | none => ([], stream)
    | some (message, rest) => (message :: (parse next fuel rest).1, (parse next fuel rest).2)

/-- All complete messages of a stream. -/
def messages {A M : Type} (next : List A → Option (M × List A)) (stream : List A) : List M :=
  (parse next stream.length stream).1

/-- The incomplete message at the end of a stream. -/
def remainder {A M : Type} (next : List A → Option (M × List A)) (stream : List A) : List A :=
  (parse next stream.length stream).2

theorem parse_of_none {A M : Type} {next : List A → Option (M × List A)} {stream : List A}
    (h : next stream = none) (fuel : Nat) : parse next fuel stream = ([], stream) := by
  cases fuel with
  | zero => rfl
  | succ fuel => simp only [parse, h]

/-- More fuel than the stream is long makes no difference. -/
theorem Incremental.parse_eq {A M : Type} {next : List A → Option (M × List A)} (hnext : Incremental next)
    {fuel : Nat} {stream : List A} (hfuel : stream.length ≤ fuel) :
    parse next fuel stream = (messages next stream, remainder next stream) := by
  suffices hsame : ∀ more less : Nat, ∀ stream : List A, stream.length ≤ less → less ≤ more →
      parse next more stream = parse next less stream from
    hsame fuel stream.length stream le_rfl hfuel
  intro more less
  induction less generalizing more with
  | zero =>
    intro stream hstream _
    cases hmessage : next stream with
    | none => rw [parse_of_none hmessage, parse_of_none hmessage]
    | some result =>
      have hshort := hnext.shorter stream result.1 result.2 hmessage
      omega
  | succ less ih =>
    intro stream hstream hle
    obtain ⟨more, rfl⟩ : ∃ smaller, more = smaller + 1 := ⟨more - 1, by omega⟩
    cases hmessage : next stream with
    | none => rw [parse_of_none hmessage, parse_of_none hmessage]
    | some result =>
      have hshort := hnext.shorter stream result.1 result.2 hmessage
      simp only [parse, hmessage]
      rw [ih more result.2 (by omega) (by omega)]

theorem messages_of_none {A M : Type} {next : List A → Option (M × List A)} {stream : List A}
    (h : next stream = none) : messages next stream = [] ∧ remainder next stream = stream := by
  simp only [messages, remainder, parse_of_none h, and_self]

theorem Incremental.messages_of_some {A M : Type} {next : List A → Option (M × List A)} (hnext : Incremental next)
    {stream rest : List A} {message : M} (h : next stream = some (message, rest)) :
    messages next stream = message :: messages next rest ∧ remainder next stream = remainder next rest := by
  have hshort := hnext.shorter stream message rest h
  obtain ⟨fuel, hfuel⟩ : ∃ fuel, stream.length = fuel + 1 := ⟨stream.length - 1, by omega⟩
  have hrest : parse next fuel rest = (messages next rest, remainder next rest) := hnext.parse_eq (by omega)
  unfold messages remainder
  simp only [hfuel, parse, h]
  rw [hrest]
  exact ⟨rfl, rfl⟩

/-- A stream that grows keeps the messages found so far; the rest is found in
what was left over followed by what has arrived. -/
theorem Incremental.messages_append {A M : Type} {next : List A → Option (M × List A)} (hnext : Incremental next)
    (stream more : List A) :
    messages next (stream ++ more) = messages next stream ++ messages next (remainder next stream ++ more) ∧
      remainder next (stream ++ more) = remainder next (remainder next stream ++ more) := by
  induction hlength : stream.length using Nat.strong_induction_on generalizing stream with
  | _ length ih =>
    cases hmessage : next stream with
    | none =>
      obtain ⟨hnone, hrest⟩ := messages_of_none hmessage
      simp [hnone, hrest]
    | some result =>
      obtain ⟨message, rest⟩ := result
      have hshort := hnext.shorter stream message rest hmessage
      obtain ⟨hmessages, hremainder⟩ := hnext.messages_of_some hmessage
      obtain ⟨hmore, hmoreRest⟩ := hnext.messages_of_some (hnext.stable stream message rest more hmessage)
      obtain ⟨hsplit, hsplitRest⟩ := ih rest.length (by omega) rest rfl
      constructor
      · rw [hmore, hmessages, hremainder, hsplit, List.cons_append]
      · rw [hmoreRest, hremainder, hsplitRest]

theorem Incremental.messages_prefix {A M : Type} {next : List A → Option (M × List A)} (hnext : Incremental next)
    {stream longer : List A} (h : stream <+: longer) : messages next stream <+: messages next longer := by
  obtain ⟨more, rfl⟩ := h
  rw [(hnext.messages_append stream more).1]
  exact List.prefix_append _ _

/-- What is left over does not start with a complete message. -/
theorem Incremental.next_remainder {A M : Type} {next : List A → Option (M × List A)} (hnext : Incremental next)
    (stream : List A) : next (remainder next stream) = none := by
  induction hlength : stream.length using Nat.strong_induction_on generalizing stream with
  | _ length ih =>
    cases hmessage : next stream with
    | none => rwa [(messages_of_none hmessage).2]
    | some result =>
      have hshort := hnext.shorter stream result.1 result.2 hmessage
      rw [(hnext.messages_of_some hmessage).2]
      exact ih result.2.length (by omega) result.2 rfl

/-- The messages and the remainder, put together again, are the stream. -/
theorem Incremental.messages_contents {A M : Type} {next : List A → Option (M × List A)} (hnext : Incremental next)
    {contents : M → List A}
    (hcontents : ∀ stream message rest, next stream = some (message, rest) → contents message ++ rest = stream)
    (stream : List A) : ((messages next stream).map contents).flatten ++ remainder next stream = stream := by
  induction hlength : stream.length using Nat.strong_induction_on generalizing stream with
  | _ length ih =>
    cases hmessage : next stream with
    | none =>
      obtain ⟨hnone, hrest⟩ := messages_of_none hmessage
      simp [hnone, hrest]
    | some result =>
      obtain ⟨message, rest⟩ := result
      have hshort := hnext.shorter stream message rest hmessage
      obtain ⟨hmessages, hremainder⟩ := hnext.messages_of_some hmessage
      rw [hmessages, hremainder, List.map_cons, List.flatten_cons, List.append_assoc,
          ih rest.length (by omega) rest rfl]
      exact hcontents stream message rest hmessage

end framing
