import ProcessDrill.Proofs.Console.Reading
/-!
# What a reader asks for and what it keeps

`Console.readTokenBy host more grow` reads a token with `more` in the place of the read of a chunk, and with
`grow` in the place of `Token.extend`.

Main statement: `readTokenBy_eq`, it reads as `readToken` does as soon as `more` is that read on the consoles
where nothing is pending and the end was not seen, and `grow` is `Token.extend` on the tokens that hold as many
of their bytes as the limit allows and no more. So `readToken` does not ask for input elsewhere, and it never
holds another token.
-/

namespace ProcessDrill

set_option autoImplicit false

/-- As many bytes are held as the limit allows. -/
def Token.Clipped (limit : Nat) (token : Token) : Prop :=
  token.bytes.length = min limit token.length

theorem Token.Clipped.extend {limit : Nat} {token : Token} (h : token.Clipped limit) (more : List UInt8) :
    (token.extend limit more).Clipped limit := by
  simp only [Clipped, Token.extend, List.length_append, List.length_take] at h ⊢
  omega

namespace Console

variable {σ : Type}

/-- Nothing is pending, and more may come. -/
def Idle (c : Console σ) : Prop :=
  c.pending = [] ∧ c.atEnd = false

/-! ## Readers with parts of their own -/

def skipBlanksBy (more : Session σ Bool) (reads : Nat) : Session σ Bool := do
  let ink := (← get).pending.dropWhile Text.isBlank
  modify fun c => { c with pending := ink }
  if !ink.isEmpty then pure true
  else if (← get).atEnd then pure false
  else
    match reads with
    | 0 => throw .outOfPatience
    | reads + 1 => if ← more then skipBlanksBy more reads else pure false

def takeInkBy (more : Session σ Bool) (grow : Token → List UInt8 → Token) (reads : Nat) (token : Token) :
    Session σ Token := do
  let pending := (← get).pending
  let token := grow token (pending.takeWhile Text.isInk)
  let blank := pending.dropWhile Text.isInk
  modify fun c => { c with pending := blank.drop 1 }
  if !blank.isEmpty then pure token
  else if (← get).atEnd then pure token
  else
    match reads with
    | 0 => throw .outOfPatience
    | reads + 1 => if ← more then takeInkBy more grow reads token else pure token

def readTokenBy (host : Host σ) (more : Session σ Bool) (grow : Token → List UInt8 → Token) :
    Session σ (Except InputError Token) := do
  let reads := host.patience (← get).machine
  if ← skipBlanksBy more reads then
    let token ← takeInkBy more grow reads {}
    pure (.ok token)
  else pure (.error .closed)

/-! ## Readers that read alike -/

variable {host : Host σ} {more : Session σ Bool} {grow : Token → List UInt8 → Token} {limit : Nat}

section Asks

variable (asks : ∀ c : Console σ, c.Idle → more c = refill host c)
include asks

theorem skipBlanksBy_eq (reads : Nat) (c : Console σ) :
    skipBlanksBy more reads c = skipBlanks host reads c := by
  induction reads generalizing c with
  | zero => rw [skipBlanksBy.eq_def, skipBlanks.eq_def]
  | succ reads ih =>
    rw [skipBlanksBy.eq_def, skipBlanks.eq_def]
    simp only [Session.get_bind_apply, Session.modify_bind_apply]
    split
    · rfl
    next blank =>
      simp only [Session.get_bind_apply]
      split
      · rfl
      next notEnd =>
        have idle : Idle { c with pending := c.pending.dropWhile Text.isBlank } :=
          ⟨by simpa using blank, by simpa using notEnd⟩
        rw [Session.bind_apply, Session.bind_apply, asks _ idle]
        cases refill host { c with pending := c.pending.dropWhile Text.isBlank } with
        | error stop d => rfl
        | ok found d =>
          cases found with
          | false => rfl
          | true => exact ih d

theorem takeInkBy_eq
    (grows : ∀ token : Token, token.Clipped limit → ∀ ink, grow token ink = token.extend limit ink)
    (reads : Nat) {token : Token} (clipped : token.Clipped limit) (c : Console σ) :
    takeInkBy more grow reads token c = takeInk host limit reads token c := by
  -- What is held is clipped again after it has grown.
  induction reads generalizing token c with
  | zero =>
    rw [takeInkBy.eq_def, takeInk.eq_def]
    simp only [Session.get_bind_apply, grows token clipped]
  | succ reads ih =>
    rw [takeInkBy.eq_def, takeInk.eq_def]
    simp only [Session.get_bind_apply, Session.modify_bind_apply, grows token clipped]
    split
    · rfl
    next ink =>
      simp only [Session.get_bind_apply]
      split
      · rfl
      next notEnd =>
        have dry : c.pending.dropWhile Text.isInk = [] := by simpa using ink
        have idle : Idle { c with pending := (c.pending.dropWhile Text.isInk).drop 1 } :=
          ⟨by rw [dry, List.drop_nil], by simpa using notEnd⟩
        rw [Session.bind_apply, Session.bind_apply, asks _ idle]
        cases refill host { c with pending := (c.pending.dropWhile Text.isInk).drop 1 } with
        | error stop d => rfl
        | ok found d =>
          cases found with
          | false => rfl
          | true => exact ih (clipped.extend _) d

theorem readTokenBy_eq
    (grows : ∀ token : Token, token.Clipped limit → ∀ ink, grow token ink = token.extend limit ink) :
    readTokenBy host more grow = readToken host limit := by
  funext c
  rw [readTokenBy, readToken, Session.get_bind_apply, Session.get_bind_apply, Session.bind_apply,
    Session.bind_apply, skipBlanksBy_eq asks]
  cases skipBlanks host (host.patience c.machine) c with
  | error stop d => rfl
  | ok found d =>
    cases found with
    | false => rfl
    | true =>
      have clipped : ({} : Token).Clipped limit := (Nat.min_zero limit).symm
      simp only [if_true, Session.bind_apply, takeInkBy_eq asks grows _ clipped]

end Asks

end Console

end ProcessDrill
