import ApiTypings.Proofs.Reference.Progress
import ApiTypings.Proofs.Reference.Reading

/-!
# The cursor reads what the reader reads

Where a reader is given a rest of the text, the cursor stands at the beginning of that rest. When
the reader succeeds the cursor comes to what it leaves and goes on with what was read; when it
fails the cursor gives up for the same reason at the text that was left then. There is one lemma
for each reader, and the loops are followed by induction on the length of the rest.
-/

namespace ApiTypings.Reference.Cursor

open Text StateTransition

/-- From `s` the cursor comes to where a reader comes: to `next` of what was read, with the same
generics pending, or to where it gives up. -/
inductive Tracks {α : Type} (text : String) (s : State) (next : α → Control) :
    Except Stop (α × List Char) → Prop where
  | ok {a rest pos} : Leaves text pos rest →
      Reaches (step text) s ⟨pos, next a, s.pending⟩ → Tracks text s next (.ok (a, rest))
  | error {stop t} : Leaves text t.pos stop.rest → t.control = .failed stop.reason →
      Reaches (step text) s t → Tracks text s next (.error stop)

variable {text : String} {s t : State} {cs : List Char} {pos : Nat} {pending : List Pending}

namespace Tracks

variable {α β : Type} {next : α → Control} {read : Except Stop (α × List Char)}

private theorem of_reaches (hr : Reaches (step text) s t) (hp : t.pending = s.pending)
    (h : Tracks text t next read) : Tracks text s next read := by
  cases h with
  | ok hleaves ht => exact .ok hleaves (hr.trans (hp ▸ ht))
  | error hleaves hfailed ht => exact .error hleaves hfailed (hr.trans ht)

/-- What is read may be put into a larger reference. -/
theorem map {f : α → β} {next : β → Control} (h : Tracks text s (next ∘ f) read) :
    Tracks text s next (read.map fun x => (f x.1, x.2)) := by
  cases h with
  | ok hleaves ht => exact .ok hleaves ht
  | error hleaves hfailed ht => exact .error hleaves hfailed ht

end Tracks

/-! ## Single operations -/

section Operations

variable {p : Char → Bool} {next : List Char → Control} {c d yes no : Control}

private theorem reaches_scan (h : Leaves text s.pos cs)
    (hs : step text s = some (s.scan text p next)) :
    ∃ after, Leaves text after (cs.dropWhile p) ∧
      Reaches (step text) s ⟨after, next (cs.takeWhile p), s.pending⟩ := by
  rw [scan_eq h] at hs
  exact ⟨_, h.dropWhile p, .single hs⟩

/-- A token stands at the cursor and is passed, or it does not stand there. -/
theorem reaches_eat (token : String) (h : Leaves text s.pos cs)
    (hs : step text s = some (s.eat text token yes no)) :
    (∃ more after, cs = token.toList ++ more ∧ Leaves text after more ∧
      Reaches (step text) s ⟨after, yes, s.pending⟩) ∨
    (∀ more, cs ≠ token.toList ++ more) ∧ Reaches (step text) s ⟨s.pos, no, s.pending⟩ := by
  by_cases hstart : ∃ more, cs = token.toList ++ more
  · obtain ⟨more, rfl⟩ := hstart
    rw [eat_eq h] at hs
    exact .inl ⟨more, _, rfl, h.token, .single hs⟩
  · have hstart' : ∀ more, cs ≠ token.toList ++ more := fun more he => hstart ⟨more, he⟩
    rw [eat_eq_of_ne h hstart'] at hs
    exact .inr ⟨hstart', .single hs⟩

/-- After the blanks a token stands there and is passed, or it does not stand there. -/
theorem reaches_token (token : String) (h : Leaves text pos cs)
    (hc : step text ⟨pos, c, pending⟩ = some (.scan text isBlank (fun _ => d) ⟨pos, c, pending⟩))
    (hd : ∀ gap, step text ⟨gap, d, pending⟩ = some (.eat text token yes no ⟨gap, d, pending⟩)) :
    (∃ more after, dropBlanks cs = token.toList ++ more ∧ Leaves text after more ∧
      Reaches (step text) ⟨pos, c, pending⟩ ⟨after, yes, pending⟩) ∨
    (∀ more, dropBlanks cs ≠ token.toList ++ more) ∧
      ∃ after, Leaves text after (dropBlanks cs) ∧
        Reaches (step text) ⟨pos, c, pending⟩ ⟨after, no, pending⟩ := by
  obtain ⟨gap, hgap, hscan⟩ := reaches_scan (s := ⟨pos, c, pending⟩) h hc
  rcases reaches_eat (s := ⟨gap, d, pending⟩) token hgap (hd gap) with
    ⟨more, after, htoken, hmore, heat⟩ | ⟨htoken, heat⟩
  · exact .inl ⟨more, after, htoken, hmore, hscan.trans heat⟩
  · exact .inr ⟨htoken, gap, hgap, hscan.trans heat⟩

end Operations

/-! ## Names and positions -/

private theorem tracks_readName (before : List (List Char)) (pending : List Pending)
    (h : Leaves text pos cs) :
    Tracks text ⟨pos, .segment before, pending⟩ (fun segments => .afterName (before ++ segments))
      (leaving (readName cs)) := by
  induction hlen : cs.length using Nat.strongRecOn generalizing cs before pos with
  | ind n ih =>
    obtain ⟨after, hafter, hscan⟩ := reaches_scan (s := ⟨pos, .segment before, pending⟩) h rfl
    by_cases hs : isSegment (cs.takeWhile isNameChar) = true
    · rw [if_pos hs] at hscan
      let t : State := ⟨after, .dot (before ++ [cs.takeWhile isNameChar]), pending⟩
      rcases reaches_eat (s := t) "." hafter rfl with ⟨more, dot, hdot, hmore, heat⟩ | ⟨hdot, heat⟩
      · have hlt : more.length < n := by
          have := length_dropWhile_lt_of_isSegment hs
          rw [hdot, List.length_append] at this
          omega
        have htracks := ih more.length hlt (before ++ [cs.takeWhile isNameChar]) hmore rfl
        rw [leaving_readName_dot hs hdot]
        refine .of_reaches (hscan.trans heat) rfl (.map ?_)
        simpa [Function.comp_def] using htracks
      · rw [leaving_readName_last hs hdot]
        exact .ok hafter (hscan.trans heat)
    · rw [if_neg hs] at hscan
      rw [readName_error hs]
      exact .error hafter rfl hscan

private theorem tracks_readPosition (h : Leaves text pos cs) :
    Tracks text ⟨pos, .position, pending⟩ (fun n => .suffix (.param n)) (readPosition cs) := by
  obtain ⟨after, hafter, hscan⟩ := reaches_scan (s := ⟨pos, .position, pending⟩) h rfl
  simp only [readPosition]
  split
  · next hdigits =>
    rw [if_pos hdigits] at hscan
    exact .ok hafter hscan
  · next hdigits =>
    rw [if_neg hdigits] at hscan
    exact .error hafter rfl hscan

/-! ## Suffixes -/

private theorem tracks_readSuffixes (r : Reference) (h : Leaves text pos cs) :
    Tracks text ⟨pos, .suffix r, pending⟩ .read (.ok (readSuffixes r cs)) := by
  induction hlen : cs.length using Nat.strongRecOn generalizing cs r pos with
  | ind n ih =>
    -- The reader passes blanks one by one, the cursor all at once.
    have hle := length_dropBlanks_le cs
    rw [← readSuffixes_dropBlanks]
    rcases reaches_token (c := .suffix r) (d := .brackets r) "[]" h rfl (fun _ => rfl) with
      ⟨more, after, hbrackets, hmore, hr⟩ | ⟨hbrackets, gap, hgap, hr⟩
    · rw [hbrackets] at hle ⊢
      have hlt : more.length < n := by
        simp at hle
        omega
      exact .of_reaches hr rfl (ih more.length hlt (.array r) hmore rfl)
    · rcases reaches_eat (s := ⟨gap, .question r, pending⟩) "?" hgap rfl with
        ⟨more, after, hquestion, hmore, heat⟩ | ⟨hquestion, heat⟩
      · rw [hquestion] at hle ⊢
        have hlt : more.length < n := by
          simp at hle
          omega
        exact .of_reaches (hr.trans heat) rfl (ih more.length hlt (.nullable r) hmore rfl)
      · rw [readSuffixes_stop r (fun _ _ => dropBlanks_head) hbrackets hquestion]
        exact .ok hgap (hr.trans heat)

/-! ## Atoms, references and arguments -/

/-- Arguments are read after those that were read before them. -/
def TracksArguments (text : String) (cs : List Char) : Prop :=
  ∀ pos generic pending, Leaves text pos cs →
    Tracks text ⟨pos, .argument generic, pending⟩
      (fun args => .suffix (ofSegments generic.segments (generic.args ++ args)))
      (leaving (readArguments cs))

private theorem tracks_readAtom (pending : List Pending) (h : Leaves text pos cs)
    (ih : ∀ inside : List Char, inside.length < cs.length → TracksArguments text inside) :
    Tracks text ⟨pos, .reference, pending⟩ .suffix (leaving (readAtom cs)) := by
  have hle := length_dropBlanks_le cs
  rcases reaches_token (c := .reference) (d := .mark) "!" h rfl (fun _ => rfl) with
    ⟨digits, after, hmark, hdigits, hr⟩ | ⟨hmark, start, hstart, hr⟩
  · rw [leaving_readAtom_position hmark]
    exact .of_reaches hr rfl (.map (tracks_readPosition hdigits))
  · refine .of_reaches hr rfl ?_
    have hname := tracks_readName [] pending hstart
    generalize hn : leaving (readName (dropBlanks cs)) = read at hname
    cases hname with
    | error hleaves hfailed hr =>
      rw [leaving_readAtom_error hmark hn]
      exact .error hleaves hfailed hr
    | @ok segments rest after hleaves hr =>
      obtain ⟨hlt, _⟩ := eq_ok_of_leaving hn
      have hgap := length_dropBlanks_le rest
      rcases reaches_token (c := .afterName segments) (d := .opening segments) "<" hleaves rfl
        (fun _ => rfl) with ⟨inside, begin, hopen, hinside, hr'⟩ | ⟨hopen, gap, hrest, hr'⟩
      · have hshorter : inside.length < cs.length := by
          rw [hopen, List.length_append] at hgap
          omega
        rw [leaving_readAtom_generic hmark hn hopen]
        exact .of_reaches (hr.trans hr') rfl
          (.map (ih inside hshorter begin ⟨segments, []⟩ pending hinside))
      · rw [leaving_readAtom_simple hmark hn hopen]
        exact .ok hrest (hr.trans hr')

private theorem tracks_readReference (pending : List Pending) (h : Leaves text pos cs)
    (ih : ∀ inside : List Char, inside.length < cs.length → TracksArguments text inside) :
    Tracks text ⟨pos, .reference, pending⟩ .read (leaving (readReference cs)) := by
  have hatom := tracks_readAtom pending h ih
  rw [leaving_readReference]
  generalize leaving (readAtom cs) = read at hatom
  cases hatom with
  | ok hleaves hr => exact .of_reaches hr rfl (tracks_readSuffixes _ hleaves)
  | error hleaves hfailed hr => exact .error hleaves hfailed hr

private theorem TracksArguments.of_shorter
    (ih : ∀ inside : List Char, inside.length < cs.length → TracksArguments text inside) :
    TracksArguments text cs := by
  intro pos generic pending h
  -- An argument is read while the generic is pending, and handed to it at the end.
  have hreference := tracks_readReference (generic :: pending) h ih
  have hbegin : Reaches (step text) ⟨pos, .argument generic, pending⟩
      ⟨pos, .reference, generic :: pending⟩ := .single rfl
  generalize hn : leaving (readReference cs) = read at hreference
  cases hreference with
  | error hleaves hfailed hr =>
    rw [leaving_readArguments_error hn]
    exact .error hleaves hfailed (hbegin.trans hr)
  | @ok r rest after hleaves hr =>
    obtain ⟨hlt, _⟩ := eq_ok_of_leaving hn
    have hgap := length_dropBlanks_le rest
    let longer : Pending := { generic with args := generic.args ++ [r] }
    have hhand : Reaches (step text) ⟨after, .read r, generic :: pending⟩
        ⟨after, .afterArgument longer, pending⟩ := .single rfl
    have hread := (hbegin.trans hr).trans hhand
    rcases reaches_token (c := .afterArgument longer) (d := .comma longer) "," hleaves rfl
      (fun _ => rfl) with ⟨more, begin, hcomma, hmore, hr'⟩ | ⟨hcomma, gap, hrest, hr'⟩
    · have hshorter : more.length < cs.length := by
        rw [hcomma, List.length_append] at hgap
        omega
      have htracks := ih more hshorter begin longer pending hmore
      rw [leaving_readArguments_more hn hcomma]
      refine .of_reaches (hread.trans hr') rfl (.map ?_)
      simpa [longer, Function.comp_def] using htracks
    · rcases reaches_eat (s := ⟨gap, .closing longer, pending⟩) ">" hrest rfl with
        ⟨more, finish, hclosing, hmore, heat⟩ | ⟨hclosing, heat⟩
      · rw [leaving_readArguments_last hn hclosing]
        exact .ok hmore ((hread.trans hr').trans heat)
      · rw [leaving_readArguments_fault hn hcomma hclosing]
        exact .error hrest rfl ((hread.trans hr').trans heat)

/-- The machine reads arguments as the reader does. -/
theorem tracksArguments (text : String) (cs : List Char) : TracksArguments text cs := by
  induction hlen : cs.length using Nat.strongRecOn generalizing cs with
  | ind n ih => exact .of_shorter fun inside hlt => ih inside.length (hlen ▸ hlt) inside rfl

/-! ## Whole texts -/

section Whole

variable {rest : List Char} {stop : Stop} {r : Reference}

/-- A text whose reading stops is not parsed. -/
theorem parse_of_error (h : leaving (readReference text.toList) = .error stop) :
    parse text = .error (stop.locate text) := by
  rw [parse]
  cases hread : readReference text.toList with
  | error stop' =>
    rw [hread] at h
    cases h
    rfl
  | ok x =>
    rw [hread] at h
    cases h

/-- A text is parsed when nothing but blanks is left. -/
theorem parse_of_ok (h : leaving (readReference text.toList) = .ok (r, rest)) :
    parse text = if dropBlanks rest = [] then .ok r
      else .error (Stop.locate ⟨.trailingInput, dropBlanks rest⟩ text) := by
  obtain ⟨hlt, hread⟩ := eq_ok_of_leaving h
  rw [parse, hread]
  dsimp only
  cases dropBlanks rest <;> rfl

/-- A fault lies where the text that was left begins. -/
theorem locate_eq (h : Leaves text pos stop.rest) :
    stop.locate text = ⟨text, stop.reason, pos⟩ := by
  have hlength := h.add_byteLength
  rw [Stop.locate, byteLength_toList, ← hlength, Nat.add_sub_cancel]

/-- The cursor stops with what the reader makes of the text. -/
theorem exists_mem_eval (text : String) :
    ∃ t ∈ eval (step text) .start, t.outcome? text = some (parse text) := by
  have hreference := tracks_readReference [] (Leaves.zero text)
    fun inside _ => tracksArguments text inside
  change Tracks text .start _ _ at hreference
  generalize hn : leaving (readReference text.toList) = read at hreference
  cases hreference with
  | @error stop t hleaves hfailed hr =>
    obtain ⟨pos, control, pending⟩ := t
    obtain rfl : control = .failed stop.reason := hfailed
    refine ⟨_, mem_eval.mpr ⟨hr, rfl⟩, ?_⟩
    rw [parse_of_error hn, locate_eq hleaves]
    rfl
  | @ok r rest after hleaves hr =>
    have hhand : Reaches (step text) ⟨after, .read r, []⟩ ⟨after, .trailing r, []⟩ := .single rfl
    obtain ⟨gap, hgap, hscan⟩ := reaches_scan (s := ⟨after, .trailing r, []⟩) hleaves rfl
    change Leaves text gap (dropBlanks rest) at hgap
    have hfinish : Reaches (step text) ⟨gap, .finish r, []⟩ ⟨gap, _, []⟩ := .single rfl
    have hrun := ((hr.trans hhand).trans hscan).trans hfinish
    have hend := hgap.eq_utf8ByteSize_iff
    rw [parse_of_ok hn]
    by_cases hrest : dropBlanks rest = []
    · rw [if_pos (hend.mpr hrest)] at hrun
      rw [if_pos hrest]
      exact ⟨_, mem_eval.mpr ⟨hrun, rfl⟩, rfl⟩
    · rw [if_neg (mt hend.mp hrest)] at hrun
      rw [if_neg hrest, locate_eq hgap]
      exact ⟨_, mem_eval.mpr ⟨hrun, rfl⟩, rfl⟩

end Whole

end ApiTypings.Reference.Cursor
