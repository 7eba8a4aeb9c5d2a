import Mathlib.Data.List.TakeWhile
import ProcessDrill.Text.Blank
/-!
# Tokens of a byte string

`Text.tokens` cuts a whole byte string into its tokens at once, the maximal runs of ink; `Text.afterToken` is what
stands behind the first of them (`tokens_of_ink`). `Text.Taken` says what may be used up of a byte string for one
token. Main statement: `Taken.tokens_append`, the token that is taken is the first one of the whole, and those of
the rest are the others.
-/

namespace ProcessDrill.Text

set_option autoImplicit false

/-- The maximal runs of bytes without blanks, in order. -/
def tokens (bytes : List UInt8) : List (List UInt8) :=
  (bytes.splitOnP isBlank).filter (!·.isEmpty)

@[simp]
theorem tokens_nil : tokens [] = [] := by
  simp [tokens]

theorem tokens_append_cons (before after : List UInt8) {b : UInt8} (blank : isBlank b = true) :
    tokens (before ++ b :: after) = tokens before ++ tokens after := by
  simp only [tokens, List.splitOnP_append_cons before after blank, List.filter_append]

theorem tokens_blanks {blanks : List UInt8} (h : ∀ b ∈ blanks, isBlank b = true) (rest : List UInt8) :
    tokens (blanks ++ rest) = tokens rest := by
  induction blanks with
  | nil => rfl
  | cons b blanks ih =>
    rw [List.forall_mem_cons] at h
    have := tokens_append_cons [] (blanks ++ rest) h.1
    rw [List.nil_append, tokens_nil, List.nil_append] at this
    rw [List.cons_append, this, ih h.2]

theorem tokens_ink {ink : List UInt8} (h : ∀ b ∈ ink, isInk b = true) (nonempty : ink ≠ []) :
    tokens ink = [ink] := by
  have noBlank : ∀ b ∈ ink, isBlank b = false := fun b hb => by simpa [isInk] using h b hb
  rw [tokens, List.splitOnP_eq_singleton noBlank]
  cases ink with
  | nil => exact absurd rfl nonempty
  | cons b rest => rfl

/-- A run of ink that stands behind a blank, and before one or at the end, is one token. -/
theorem tokens_between {ink : List UInt8} (inside : ∀ b ∈ ink, isInk b = true) (nonempty : ink ≠ [])
    (before : List UInt8) {b : UInt8} (blank : isBlank b = true) {after : List UInt8}
    (behind : ∀ c ∈ after.head?, isBlank c = true) :
    tokens (before ++ b :: (ink ++ after)) = tokens before ++ ink :: tokens after := by
  rw [tokens_append_cons before (ink ++ after) blank]
  cases after with
  | nil => rw [List.append_nil, tokens_ink inside nonempty, tokens_nil]
  | cons c after =>
    have skipped := tokens_blanks (List.forall_mem_singleton.2 (behind c rfl)) after
    rw [tokens_append_cons ink after (behind c rfl), tokens_ink inside nonempty, ← skipped]
    rfl

/-- What is left behind the first token, without the blank that ends it. -/
def afterToken (bytes : List UInt8) : List UInt8 :=
  ((bytes.dropWhile isBlank).dropWhile isInk).drop 1

theorem tokens_of_blank {bytes : List UInt8} (h : bytes.dropWhile isBlank = []) :
    tokens bytes = [] := by
  have blank : ∀ b ∈ bytes, isBlank b = true := List.dropWhile_eq_nil_iff.1 h
  have := tokens_blanks blank []
  rwa [List.append_nil, tokens_nil] at this

theorem tokens_of_ink {bytes : List UInt8} (h : bytes.dropWhile isBlank ≠ []) :
    tokens bytes = (bytes.dropWhile isBlank).takeWhile isInk :: tokens (afterToken bytes) := by
  have blank : ∀ b ∈ bytes.takeWhile isBlank, isBlank b = true := fun _ => List.mem_takeWhile_imp
  have skipped : tokens bytes = tokens (bytes.dropWhile isBlank) := by
    have := tokens_blanks blank (bytes.dropWhile isBlank)
    rwa [List.takeWhile_append_dropWhile] at this
  have first : isInk ((bytes.dropWhile isBlank).head h) = true := by
    simpa [isInk] using List.head_dropWhile_not isBlank h
  rw [skipped, afterToken]
  generalize bytes.dropWhile isBlank = rest at h first
  have ink : ∀ b ∈ rest.takeWhile isInk, isInk b = true := fun _ => List.mem_takeWhile_imp
  have nonempty : rest.takeWhile isInk ≠ [] := by
    obtain ⟨b, more, rfl⟩ := List.exists_cons_of_ne_nil h
    rw [List.head_cons] at first
    rw [List.takeWhile_cons_of_pos first]
    exact List.cons_ne_nil _ _
  have whole : rest = rest.takeWhile isInk ++ rest.dropWhile isInk :=
    List.takeWhile_append_dropWhile.symm
  rcases behind : rest.dropWhile isInk with _ | ⟨b, more⟩
  · rw [behind, List.append_nil] at whole
    have alone := tokens_ink ink nonempty
    rw [← whole] at alone ⊢
    exact alone
  · have blank : isBlank b = true := by
      have ends : rest.dropWhile isInk ≠ [] := by
        rw [behind]
        exact List.cons_ne_nil _ _
      have := List.head_dropWhile_not isInk ends
      simpa [isInk, behind] using this
    have cut := tokens_append_cons (rest.takeWhile isInk) more blank
    rw [← behind, ← whole, tokens_ink ink nonempty] at cut
    exact cut

theorem length_afterToken_lt {bytes : List UInt8} (h : bytes.dropWhile isBlank ≠ []) :
    (afterToken bytes).length < bytes.length := by
  have first : isInk ((bytes.dropWhile isBlank).head h) = true := by
    simpa [isInk] using List.head_dropWhile_not isBlank h
  have skipped := (List.dropWhile_sublist (p := isBlank) (l := bytes)).length_le
  obtain ⟨b, rest, eq⟩ := List.exists_cons_of_ne_nil h
  simp only [eq, List.head_cons] at first
  rw [afterToken, eq, List.dropWhile_cons_of_pos first, List.length_drop]
  rw [eq, List.length_cons] at skipped
  have := (List.dropWhile_sublist (p := isInk) (l := rest)).length_le
  omega

theorem ne_nil_of_mem_tokens {bytes token : List UInt8} (h : token ∈ tokens bytes) : token ≠ [] := by
  rintro rfl
  exact absurd (List.mem_filter.1 h).2 Bool.false_ne_true

theorem isInk_of_mem_tokens {bytes token : List UInt8} (h : token ∈ tokens bytes) :
    ∀ b ∈ token, isInk b = true := by
  induction length_eq : bytes.length using Nat.strongRecOn generalizing bytes with
  | _ length ih =>
    by_cases blank : bytes.dropWhile isBlank = []
    · rw [tokens_of_blank blank] at h
      cases h
    · rw [tokens_of_ink blank, List.mem_cons] at h
      rcases h with rfl | later
      · exact fun b mem => List.mem_takeWhile_imp mem
      · exact ih _ (length_eq ▸ length_afterToken_lt blank) later rfl

/-- What may be used up for one token: the blanks before it, the token, and one blank behind it. The last
part is missing, or the last two are, only if nothing can follow, which `final` says. -/
inductive Taken : (used : List UInt8) → (token : Option (List UInt8)) → (final : Bool) → Prop
  | delimited {blanks ink : List UInt8} {b : UInt8} (before : ∀ b ∈ blanks, isBlank b = true)
      (inside : ∀ b ∈ ink, isInk b = true) (nonempty : ink ≠ []) (behind : isBlank b = true) :
      Taken (blanks ++ ink ++ [b]) (some ink) false
  | last {blanks ink : List UInt8} (before : ∀ b ∈ blanks, isBlank b = true)
      (inside : ∀ b ∈ ink, isInk b = true) (nonempty : ink ≠ []) :
      Taken (blanks ++ ink) (some ink) true
  | nothing {blanks : List UInt8} (before : ∀ b ∈ blanks, isBlank b = true) :
      Taken blanks none true

theorem Taken.tokens_append {used : List UInt8} {token : Option (List UInt8)} {final : Bool}
    (h : Taken used token final) {rest : List UInt8} (nothing : final = true → rest = []) :
    tokens (used ++ rest) = token.toList ++ tokens rest := by
  cases h with
  | delimited before inside nonempty behind =>
    rw [List.append_assoc, List.append_assoc, tokens_blanks before, List.singleton_append,
      tokens_append_cons _ _ behind, tokens_ink inside nonempty]
    rfl
  | last before inside nonempty =>
    rw [nothing rfl, List.append_nil, tokens_blanks before, tokens_ink inside nonempty]
    rfl
  | nothing before =>
    rw [nothing rfl, tokens_blanks before]
    rfl

end ProcessDrill.Text
