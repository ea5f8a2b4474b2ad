import Relata.Error
import Relata.Query.Token

/-!
# Scanning by cuts

A text is scanned by a cursor, which knows what is left of the text and how many bytes are
behind it. Blanks and tokens are cut off at the offsets at which they stop; a cut past the end
or within a character is out of range.
-/

namespace Relata

/-- What is left of a text, and the offset at which it begins. -/
structure Cursor where
  rest : Text
  position : Nat
  deriving DecidableEq

/-- What a cursor finds, and where it stands then. -/
inductive Finding where
  | token (token : Token) (after : Cursor)
  /-- A quote that is never closed. -/
  | unclosed (start : Nat) (after : Cursor)
  | nothing (after : Cursor)

namespace Cursor

/-- Cuts off some bytes. -/
def advance (cursor : Cursor) (size : Nat) : Except Error (Text × Cursor) :=
  match cursor.rest.takeBytes? size, cursor.rest.dropBytes? size with
  | some taken, some rest => .ok (taken, ⟨rest, cursor.position + size⟩)
  | _, _ => .error .outOfRange

/-- Cuts off what comes before the first character with a property. -/
def advanceTo (cursor : Cursor) (p : Char → Bool) : Except Error (Text × Cursor) :=
  cursor.advance ((cursor.rest.offset? p).getD cursor.rest.byteSize)

/-- Cuts off a quoted text, if the quote at the cursor is closed. -/
def quoted (cursor : Cursor) : Except Error (Option (Text × Cursor)) :=
  match cursor.rest.dropBytes? 1 with
  | none => .error .outOfRange
  | some body =>
      match body.offset? (· = '\'') with
      | none => .ok none
      | some closing => some <$> cursor.advance (closing + 2)

/-- Finds what begins at a cursor before no blank. -/
def find (cursor : Cursor) : Except Error Finding :=
  let token (kind : TokenKind) : Text × Cursor → Finding := fun (text, after) =>
    .token ⟨kind, text, cursor.position, after.position⟩ after
  match cursor.rest with
  | [] => .ok (.nothing cursor)
  | c :: _ =>
      match Scan.single? c with
      | some kind => token kind <$> cursor.advance 1
      | none =>
          if c = '\'' then do
            match ← cursor.quoted with
            | some read => return token .quoted read
            | none =>
                let (_, after) ← cursor.advance cursor.rest.byteSize
                return .unclosed cursor.position after
          else
            token .word <$> cursor.advanceTo Scan.endsWord

def next (cursor : Cursor) : Except Error Finding := do
  let (_, start) ← cursor.advanceTo fun c => !Text.isBlank c
  start.find

/-! ## What a cursor consumes -/

variable {cursor after : Cursor} {taken rest : Text} {size : Nat} {p : Char → Bool}

theorem advance_append (taken rest : Text) (position : Nat) :
    advance ⟨taken ++ rest, position⟩ taken.byteSize =
      .ok (taken, ⟨rest, position + taken.byteSize⟩) := by
  simp only [advance, Text.takeBytes?_append, Text.dropBytes?_append]

theorem advanceTo_append (htaken : ∀ c ∈ taken, p c = false)
    (hrest : ∀ c, rest.head? = some c → p c = true) (position : Nat) :
    advanceTo ⟨taken ++ rest, position⟩ p = .ok (taken, ⟨rest, position + taken.byteSize⟩) := by
  have hsize : ((taken ++ rest).offset? p).getD (taken ++ rest).byteSize = taken.byteSize := by
    rw [Text.offset?_append htaken]
    cases rest with
    | nil => simp [Text.offset?]
    | cons c rest => simp [Text.offset?, hrest c rfl]
  rw [advanceTo, hsize, advance_append]

theorem advanceTo_eq (cursor : Cursor) (p : Char → Bool) :
    cursor.advanceTo p = .ok (cursor.rest.takeWhile (!p ·), ⟨cursor.rest.dropWhile (!p ·),
      cursor.position + Text.byteSize (cursor.rest.takeWhile (!p ·))⟩) := by
  have htaken : ∀ c ∈ cursor.rest.takeWhile (!p ·), p c = false := fun c hc => by
    simpa using List.all_eq_true.1 List.all_takeWhile c hc
  have hrest : ∀ c, (cursor.rest.dropWhile (!p ·)).head? = some c → p c = true := fun c hc => by
    have hhead := List.head?_dropWhile_not (!p ·) cursor.rest
    rw [hc] at hhead
    simpa using hhead
  have hcut := advanceTo_append htaken hrest cursor.position
  rwa [List.takeWhile_append_dropWhile] at hcut

theorem length_lt_of_advance (h : cursor.advance size = .ok (taken, after)) (hsize : size ≠ 0) :
    after.rest.length < cursor.rest.length := by
  unfold advance at h
  split at h
  · rename_i hrest
    cases h
    exact Text.length_lt_of_dropBytes? hrest hsize
  · cases h

theorem next_eq (cursor : Cursor) :
    cursor.next = find ⟨cursor.rest.dropWhile Text.isBlank,
      cursor.position + Text.byteSize (cursor.rest.takeWhile Text.isBlank)⟩ := by
  simp only [next, advanceTo_eq, Bool.not_not]
  rfl

theorem length_lt_of_quoted (h : cursor.quoted = .ok (some (taken, after))) :
    after.rest.length < cursor.rest.length := by
  unfold quoted at h
  split at h
  · cases h
  · split at h
    · cases h
    · obtain ⟨read, hread, h⟩ := Outcome.map_eq_ok.1 h
      cases h
      exact length_lt_of_advance hread (Nat.succ_ne_zero _)

theorem length_lt_of_word {c : Char} (hrest : cursor.rest = c :: rest)
    (hc : Scan.endsWord c = false)
    (h : cursor.advanceTo Scan.endsWord = .ok (taken, after)) :
    after.rest.length < cursor.rest.length := by
  rw [advanceTo_eq] at h
  cases h
  simp only [hrest, List.dropWhile_cons, hc, Bool.not_false, if_true]
  exact Nat.lt_succ_of_le (List.dropWhile_suffix _).length_le

/-- A token takes at least one character up. -/
theorem length_lt_of_find {token : Token} (h : cursor.find = .ok (.token token after))
    (hblank : ∀ c, cursor.rest.head? = some c → Text.isBlank c = false) :
    after.rest.length < cursor.rest.length := by
  unfold find at h
  split at h
  · cases h
  · rename_i c rest hrest
    split at h
    · obtain ⟨read, hread, h⟩ := Outcome.map_eq_ok.1 h
      cases h
      exact length_lt_of_advance hread Nat.one_ne_zero
    · rename_i hsingle
      split at h
      · obtain ⟨_ | read, hread, h⟩ := Outcome.bind_eq_ok.1 h
        · obtain ⟨_, _, h⟩ := Outcome.bind_eq_ok.1 h
          cases h
        · cases h
          exact length_lt_of_quoted hread
      · rename_i hquote
        obtain ⟨read, hread, h⟩ := Outcome.map_eq_ok.1 h
        cases h
        -- what is no blank and begins no other token belongs to the word
        refine length_lt_of_word hrest ?_ hread
        simp [Scan.endsWord, hblank c (by rw [hrest]; rfl), hsingle, hquote]

theorem length_lt_of_next {token : Token} (h : cursor.next = .ok (.token token after)) :
    after.rest.length < cursor.rest.length := by
  rw [next_eq] at h
  refine Nat.lt_of_lt_of_le (length_lt_of_find h ?_) (List.dropWhile_suffix _).length_le
  intro c hc
  have hhead := List.head?_dropWhile_not Text.isBlank cursor.rest
  rwa [hc] at hhead

/-! ## The scan of a text -/

def scan (cursor : Cursor) : Except Error Scan :=
  match _ : cursor.next with
  | .error e => .error e
  | .ok (.nothing after) => .ok ⟨[], none, after.position⟩
  | .ok (.unclosed start after) => .ok ⟨[], some start, after.position⟩
  | .ok (.token token after) =>
      (fun scan => { scan with tokens := token :: scan.tokens }) <$> after.scan
termination_by cursor.rest.length
decreasing_by exact length_lt_of_next ‹_›

end Cursor

def Scan.read (t : Text) : Except Error Scan :=
  Cursor.scan ⟨t, 0⟩

end Relata
