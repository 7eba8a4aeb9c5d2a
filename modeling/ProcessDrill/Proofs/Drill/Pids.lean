import Mathlib
import ProcessDrill.Machine
import ProcessDrill.Proofs.Drill.Stages
import ProcessDrill.Proofs.Text.Numbers
/-!
# Process numbers on the console

`Request.Tells` are the texts about a request, and `Pid.named?` is the process that such a text names when what stands
in its parentheses is typed again.

Main statements:
* `joins_named`, of drills that wait for a process, however they end, on a bench that was made for them. The number was
  drawn below its bound, or it was typed. The texts about it are the record before the call, and the record and the
  line behind it. All of them name the process that is waited for if the number was typed, and also if it was drawn,
  unless it is one that does not fit into 31 bits.
* `started_joinable`. A number of 32 bits with a sign is read back from its text, whatever its sign. The number of a
  program that was started is shown behind its name, as far as the output goes. If it has no more than 31 bits, it can
  be typed into any later drill: one that is asked to wait for a child, and whose console works, waits for this process,
  if the answer is the text of the number, between blanks or at the end of the input. The input is what was pending,
  what was delivered in any pieces, and what may still come.
-/

namespace ProcessDrill

set_option autoImplicit false

variable {σ : Type}

/-! ## Texts read back -/

/-- The texts about a request: the record before its call, and the record and the line behind it. -/
inductive Request.Tells (r : Request) : String → Prop
  | announcement : Tells r r.announcement
  | finding (answer : r.call.Answer) : Tells r (r.finding answer)
  | report (answer : r.call.Answer) : Tells r (r.report answer)

/-- What stands in the first parentheses of a line. -/
def Text.enclosed (line : String) : String :=
  .ofList (((line.toList.dropWhile (· != '(')).drop 1).takeWhile (· != ')'))

def Pid.named? (line : String) : Option Pid :=
  typed? (Text.enclosed line)

theorem Request.Tells.begins {pid : Pid} {line : String} (h : (Request.join pid).Tells line) :
    ∃ rest, line = "join(" ++ pid.text ++ ")" ++ rest := by
  cases h with
  | announcement => exact ⟨"", String.append_empty.symm⟩
  | finding answer => cases answer <;> exact ⟨_, String.append_assoc⟩
  | report answer => cases answer <;> exact ⟨_, String.append_assoc⟩

theorem Text.enclosed_signed (n : Int) (rest : String) :
    enclosed ("join(" ++ signed n ++ ")" ++ rest) = signed n := by
  have inside : ∀ c ∈ (signed n).toList, (c != ')') = true := by
    intro c mem
    rcases sign_or_digit n c mem with rfl | digit
    · decide
    · rw [bne_iff_ne]
      rintro rfl
      cases digit
  have opened : ("join(" ++ signed n ++ ")" ++ rest).toList =
      ['j', 'o', 'i', 'n', '('] ++ ((signed n).toList ++ ')' :: rest.toList) := by
    simp only [String.toList_append, List.append_assoc]
    rfl
  rw [enclosed, opened]
  show String.ofList (((signed n).toList ++ ')' :: rest.toList).takeWhile (· != ')')) = _
  rw [List.takeWhile_append_of_pos inside, List.takeWhile_cons_of_neg (by decide), List.append_nil,
    String.ofList_toList]

theorem Pid.named?_of_tells {pid : Pid} {line : String} (h : (Request.join pid).Tells line) :
    named? line = typed? pid.text := by
  obtain ⟨rest, rfl⟩ := h.begins
  exact congrArg typed? (Text.enclosed_signed _ rest)

namespace Drill

/-! ## The process that is waited for -/

section

variable {host : Host σ} {config : Config} {bench : Bench σ} {pid : Pid}

/-- The process that is waited for was drawn, or its number was typed. -/
theorem join_chosen (asked : .join pid ∈ processCalls (trace host config bench)) :
    (selected host bench = some .strangerJoin ∧ ∃ value rest,
        Random.draw? config.pidBound bench.words = some (value, rest) ∧ pid = ⟨value.toUInt64⟩) ∨
      (selected host bench = some .joinChild ∧ ∃ n, pid = .ofInt32 n) := by
  obtain ⟨x, chosen, middle, reaches⟩ := reaches_of_request (r := .join pid) asked
  -- which input may still come makes no difference
  have requested := reaches.request_eq fun _ => (rfl : ([] : List UInt8) = [])
  rw [reaches.selected_eq]
  rcases of_join requested with ⟨rfl, drawn⟩ | ⟨rfl, n, -, typed⟩
  · exact .inl ⟨rfl, drawn⟩
  · exact .inr ⟨rfl, n, typed⟩

/-- The process that is waited for can be told from its text if its number was typed, or if it has no more than 31
bits. -/
theorem typed?_join_iff (asked : .join pid ∈ processCalls (trace host config bench)) :
    Pid.typed? pid.text = some pid ↔ (selected host bench = some .strangerJoin → pid.raw.toNat < 2147483648) := by
  rcases join_chosen asked with ⟨chosen, value, rest, -, rfl⟩ | ⟨chosen, n, rfl⟩
  · have raw : value.toUInt64.toNat = value.toNat := UInt32.toNat_toUInt64 value
    have small := value.toNat_lt
    rw [Pid.typed?_text_iff, raw]
    constructor
    · intro fits _
      omega
    · exact fun fits => .inl (fits chosen)
  · refine iff_of_true (Pid.typed?_text_ofInt32 n) fun other => ?_
    cases chosen.symm.trans other

theorem join_told (asked : .join pid ∈ processCalls (trace host config bench)) :
    ∃ before events, trace host config bench = before ++ events ∧ (Request.join pid).Told events := by
  obtain ⟨x, chosen, middle, reaches⟩ := reaches_of_request (r := .join pid) asked
  obtain ⟨before, events, whole, told, -⟩ := reaches.told rfl
  exact ⟨before, events, whole, told⟩

end

/-- The texts about a process that is waited for name it if its number was typed, and also if it was drawn, unless it does
not fit into 31 bits. -/
theorem joins_named (host : Host σ) (machine : σ) (words : List UInt32) (config : Config) (bench : Bench σ)
    (built : Bench.new machine words config = .ok bench) (i : Nat) (pid : Pid)
    (asked : .join pid ∈ processCalls (trace host config (benchAt host config bench i))) :
    let here := benchAt host config bench i
    (∃ before events, trace host config here = before ++ events ∧ (Request.join pid).Told events) ∧
    (selected host here = some .strangerJoin ∧ pid.raw.toNat < config.pidBound.toNat ∨
      selected host here = some .joinChild) ∧
    ∀ line, (Request.join pid).Tells line →
      (Pid.named? line = some pid ↔ (selected host here = some .strangerJoin → pid.raw.toNat < 2147483648)) := by
  intro here
  refine ⟨join_told asked, ?_⟩
  rcases join_chosen asked with ⟨chosen, value, rest, drawn, rfl⟩ | ⟨chosen, n, rfl⟩
  · have raw : value.toUInt64.toNat = value.toNat := UInt32.toNat_toUInt64 value
    have below := Random.draw?_lt (Config.valid_of_new built).pidBound_ne drawn
    refine ⟨.inl ⟨chosen, ?_⟩, fun line tells => ?_⟩
    · rw [raw]
      exact UInt32.lt_iff_toNat_lt.1 below
    · have small := value.toNat_lt
      rw [Pid.named?_of_tells tells, Pid.typed?_text_iff, raw]
      constructor
      · intro fits _
        omega
      · intro fits
        exact .inl (fits chosen)
  · refine ⟨.inr chosen, fun line tells => ?_⟩
    rw [Pid.named?_of_tells tells, Pid.typed?_text_ofInt32]
    refine iff_of_true rfl fun other => ?_
    cases chosen.symm.trans other

/-- A negative number is typed. -/
theorem negative_number_named :
    let machine : Machine := { reads := [.bytes [54, 32, 45, 51, 10]] }
    let bench : Bench Machine := ⟨{ machine }, []⟩
    Bench.new machine [] {} = .ok bench ∧
      .join ⟨18446744073709551613⟩ ∈ processCalls (trace Machine.direct {} bench) ∧
      ∀ line, (Request.join ⟨18446744073709551613⟩).Tells line → Pid.named? line = some ⟨18446744073709551613⟩ := by
  intro machine bench
  have built : Bench.new machine [] {} = .ok bench := rfl
  have calls : processCalls (trace Machine.direct {} bench) = [.join ⟨18446744073709551613⟩, .halt] := by
    decide +kernel
  have asked : .join ⟨18446744073709551613⟩ ∈ processCalls (trace Machine.direct {} bench) := by
    rw [calls]
    exact List.mem_cons_self
  obtain ⟨-, source, named⟩ := joins_named Machine.direct machine [] {} bench built 0 _ asked
  refine ⟨built, asked, fun line tells => (named line tells).2 fun drawn => ?_⟩
  rcases source with ⟨-, below⟩ | typed
  · exact absurd below (by decide)
  · cases typed.symm.trans drawn

/-- The number that is drawn is the least one that does not fit into 31 bits. -/
theorem drawn_number_misnamed :
    let config : Config := { pidBound := 4294967295 }
    let machine : Machine := { reads := [.bytes [52, 10]] }
    let bench : Bench Machine := ⟨{ machine }, [2147483649]⟩
    Bench.new machine [2147483649] config = .ok bench ∧
      .join ⟨2147483648⟩ ∈ processCalls (trace Machine.direct config bench) ∧
      (∃ before events, trace Machine.direct config bench = before ++ events ∧
        (Request.join ⟨2147483648⟩).Told events) ∧
      ∀ line, (Request.join ⟨2147483648⟩).Tells line → Pid.named? line = some ⟨18446744071562067968⟩ := by
  intro config machine bench
  have calls : processCalls (trace Machine.direct config bench) = [.join ⟨2147483648⟩, .halt] := by
    decide +kernel
  have asked : .join ⟨2147483648⟩ ∈ processCalls (trace Machine.direct config bench) := by
    rw [calls]
    exact List.mem_cons_self
  refine ⟨rfl, asked, join_told asked, fun line tells => ?_⟩
  rw [Pid.named?_of_tells tells, Pid.typed?_text]
  decide +kernel

/-! ## Waiting for a program that was started -/

section

variable {host : Host σ} {config : Config} {bench : Bench σ}

/-- A number that is typed is waited for. -/
theorem Served.joins (served : Served host config bench) {future : List UInt8}
    (nothing : (left host config bench).console.atEnd = true → future = [])
    (selects : (tokens host config bench future)[0]?.bind Token.integer? = some Exercise.joinChild.number) {n : Int32}
    (typed : (tokens host config bench future)[1]? = some (Utf8.encode (Pid.ofInt32 n).text)) :
    .join (.ofInt32 n) ∈ processCalls (trace host config bench) ∧
      processCalls (trace host config bench) <+: [.join (.ofInt32 n), .halt] := by
  have requested : request? config bench.words (tokens host config bench future)[1]? .joinChild =
      some (.join (.ofInt32 n)) := by
    rw [typed, Pid.text_ofInt32, request?, Option.bind_some, Token.integer?_encode_signed]
    rfl
  obtain ⟨chosen, middle, reaches⟩ := served.reaches_request nothing selects rfl requested
  exact reaches.calls (r := .join (.ofInt32 n)) rfl

end

/-- The number of a program that was started, typed into any later drill, waits for this program, if it has no more than
31 bits. -/
theorem started_joinable :
    (∀ n : Int32, Numeral.parse (Pid.ofInt32 n).text.toList = some n ∧ (Pid.ofInt32 n).toInt32 = n) ∧
    ∀ (σ τ : Type) (first : Host σ) (config : Config) (bench : Bench σ) (name : List UInt8) (argv : Argv) (pid : Pid),
      .answered (.exec name argv) (.ok pid) ∈ trace first config bench → pid.raw.toNat ≤ 2147483647 →
      (∃ before rest, trace first config bench = before ++ .answered (.exec name argv) (.ok pid) ::
          .logged ⟨.info, .exercise, "exec(\"" ++ Text.escape name ++ "\")" ++ " -> pid " ++ pid.text⟩ :: rest ∧
        let line := Utf8.encodeLine ("exec(\"" ++ Text.escape name ++ "\")" ++ " started pid " ++ pid.text)
        accepted rest <+: line ∨ line <+: accepted rest) ∧
      ∀ (second : Host τ) (config : Config) (bench : Bench τ) (future before choice after : List UInt8) (b : UInt8),
        ((left second config bench).console.atEnd = true → future = []) →
        Served second config bench →
        bench.console.pending ++ (delivered (trace second config bench) ++ future) =
          before ++ b :: (Utf8.encode pid.text ++ after) →
        Text.tokens before = [choice] → Token.integer? choice = some Exercise.joinChild.number →
        Text.isBlank b = true → (∀ c ∈ after.head?, Text.isBlank c = true) →
        .join pid ∈ processCalls (trace second config bench) ∧
          processCalls (trace second config bench) <+: [.join pid, .halt] := by
  refine ⟨fun n => ?_, fun σ τ first config bench name argv pid started small => ?_⟩
  · rw [Pid.text_ofInt32]
    exact ⟨Numeral.parse_signed n, Pid.toInt32_ofInt32 n⟩
  refine ⟨answer_told (r := .exec name argv) started, ?_⟩
  intro second config bench future before choice after b nothing served input chosen selects blank behind
  have split : tokens second config bench future = choice :: Utf8.encode pid.text :: Text.tokens after := by
    have ink := Text.isInk_encode_signed pid.toInt32.toInt
    have nonempty := Text.encode_signed_ne_nil pid.toInt32.toInt
    rw [tokens, input]
    exact (Text.tokens_between ink nonempty before blank behind).trans (by rw [chosen]; rfl)
  have same := Pid.ofInt32_toInt32 small
  have joins := served.joins nothing (n := pid.toInt32) (by rw [split]; exact selects) (by rw [split, same]; rfl)
  rwa [same] at joins

/-- A program is started, and its number is typed into another drill. -/
theorem seventh_process_joined :
    let starts : Bench Machine := ⟨{ machine := { reads := [.bytes [53, 32, 97, 10]], execs := [7] } }, []⟩
    let joins : Bench Machine := ⟨{ machine := { reads := [.bytes [54, 32], .bytes [55, 10]] } }, []⟩
    .answered (.exec [97] .empty) (.ok ⟨7⟩) ∈ trace Machine.direct {} starts ∧
      .join ⟨7⟩ ∈ processCalls (trace Machine.direct {} joins) := by
  intro starts joins
  have started : .answered (.exec [97] .empty) (.ok ⟨7⟩) ∈ trace Machine.direct {} starts := by
    have : (trace Machine.direct {} starts)[19]? = some (.answered (.exec [97] .empty) (.ok ⟨7⟩)) := by
      cbv
    exact List.mem_of_getElem? this
  have ended : (verdict (run Machine.direct {} joins)).1 = .ok (.haltRefused .joinChild .eperm) := by
    decide +kernel
  have brought : delivered (trace Machine.direct {} joins) = [54, 32, 55, 10] := by
    decide +kernel
  have joinable := (started_joinable.2 _ Machine _ _ _ _ _ _ started (by decide)).2 Machine.direct {} joins []
    [54] [54] [10] 32 (fun _ => rfl) (served_of_verdict ended)
  refine ⟨started, (joinable ?_ (by decide) (by cbv) (by decide) ?_).1⟩
  · rw [brought]
    decide
  · rintro c ⟨⟩
    rfl

end Drill

end ProcessDrill
