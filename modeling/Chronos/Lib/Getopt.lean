import Mathlib.Data.List.Basic

/-!
# Command lines

`getopt` on the words of a command line. A word that begins with a dash has letters, the last
of which may want an argument: the rest of the word, or the next one if nothing is left of it.
The other words are operands, wherever they stand, and so is everything behind `--`.

An arrangement puts options into words, in any of these ways. The command lines without
operands and errors are those that an arrangement gives.
-/

namespace Chronos.Lib

/-- What `getopt` returns: an option, with the argument it wants, or `?`, for a letter that
it does not know or whose argument is missing. -/
inductive Opt
  | flag (c : Char)
  | arg (c : Char) (optarg : List Char)
  | bad (optopt : Char)
  deriving DecidableEq, Repr

/-- Whether a letter of the `optstring` wants an argument. -/
def wantsArg (optstring : List Char) (c : Char) : Option Bool :=
  if c = ':' ∨ c = ';' then none
  else
    match optstring.dropWhile (· ≠ c) with
    | [] => none
    | _ :: rest => some (rest.head? = some ':')

section

variable (wants : Char → Option Bool)

/-- The letters of a word, and the one at its end whose argument is the next word. -/
def scanLetters : List Char → List Opt × Option Char
  | [] => ([], none)
  | c :: cs =>
    match wants c with
    | none => (.bad c :: (scanLetters cs).1, (scanLetters cs).2)
    | some false => (.flag c :: (scanLetters cs).1, (scanLetters cs).2)
    | some true => if cs = [] then ([], some c) else ([.arg c cs], none)

/-- All that `getopt` returns, and the operands, where a letter may wait for its argument. -/
def getopt : Option Char → List (List Char) → List Opt × List (List Char)
  | none, [] => ([], [])
  | some c, [] => ([.bad c], [])
  | some c, word :: words => (.arg c word :: (getopt none words).1, (getopt none words).2)
  | none, word :: words =>
    match word with
    | ['-', '-'] => ([], words)
    | '-' :: c :: cs =>
      let (opts, waiting) := scanLetters wants (c :: cs)
      (opts ++ (getopt waiting words).1, (getopt waiting words).2)
    | _ => ((getopt none words).1, word :: (getopt none words).2)

end

/-- What ends a word of options: nothing, or a letter with its argument, which is attached
to it or a word of its own. -/
inductive OptEnd
  | nothing
  | attached (c : Char) (optarg : List Char)
  | separate (c : Char) (optarg : List Char)
  deriving DecidableEq, Repr

/-- Options that share a word. -/
structure OptWord where
  flags : List Char
  last : OptEnd
  deriving DecidableEq, Repr

namespace OptWord

variable (w : OptWord)

def words : List (List Char) :=
  match w.last with
  | .nothing => ['-' :: w.flags]
  | .attached c optarg => ['-' :: (w.flags ++ c :: optarg)]
  | .separate c optarg => ['-' :: (w.flags ++ [c]), optarg]

def opts : List Opt :=
  w.flags.map .flag ++
    match w.last with
    | .nothing => []
    | .attached c optarg | .separate c optarg => [.arg c optarg]

/-- The letters want arguments or not as the word has it, and the word has a letter. -/
structure Valid (wants : Char → Option Bool) : Prop where
  flags : ∀ c ∈ w.flags, wants c = some false
  last : match w.last with
    | .nothing => w.flags ≠ []
    | .attached c optarg => wants c = some true ∧ optarg ≠ []
    | .separate c _ => wants c = some true

/-- The test for it. -/
def isValid (wants : Char → Option Bool) : Bool :=
  w.flags.all (wants · = some false) &&
    match w.last with
    | .nothing => w.flags ≠ []
    | .attached c optarg => wants c = some true && optarg ≠ []
    | .separate c _ => wants c = some true

theorem valid_of_isValid {wants : Char → Option Bool} (h : w.isValid wants = true) :
    w.Valid wants := by
  rw [isValid, Bool.and_eq_true, List.all_eq_true] at h
  obtain ⟨hflags, hlast⟩ := h
  constructor
  · exact fun c hc => of_decide_eq_true (hflags c hc)
  · cases hend : w.last <;> simpa [hend] using hlast

end OptWord

/-- Words of options, one after the other, give these words of a command line. -/
structure Arranges (wants : Char → Option Bool) (ws : List OptWord) (words : List (List Char))
    (opts : List Opt) : Prop where
  valid : ∀ w ∈ ws, w.Valid wants
  words : ws.flatMap OptWord.words = words
  opts : ws.flatMap OptWord.opts = opts

/-! ## Arrangements are read back -/

section

variable {wants : Char → Option Bool} {ws : List OptWord} {w : OptWord}
  {words : List (List Char)} {opts : List Opt} {flags : List Char}

theorem mem_of_wantsArg {optstring : List Char} {c : Char} {b : Bool}
    (h : wantsArg optstring c = some b) : c ∈ optstring := by
  rw [wantsArg] at h
  split at h
  · cases h
  · cases hrest : optstring.dropWhile (· ≠ c) with
    | nil =>
      rw [hrest] at h
      cases h
    | cons d rest =>
      have hd := List.head?_dropWhile_not (· ≠ c) optstring
      rw [hrest] at hd
      obtain rfl : d = c := by simpa using hd
      exact (List.dropWhile_suffix _).subset (hrest ▸ List.mem_cons_self)

theorem scanLetters_append (h : ∀ c ∈ flags, wants c = some false) (rest : List Char) :
    scanLetters wants (flags ++ rest) =
      (flags.map .flag ++ (scanLetters wants rest).1, (scanLetters wants rest).2) := by
  induction flags with
  | nil => rfl
  | cons c flags ih =>
    rw [List.cons_append, scanLetters, h c List.mem_cons_self,
      ih fun d hd => h d (List.mem_cons_of_mem c hd)]
    rfl

/-- A word of letters that are known is no end of the options. -/
theorem getopt_dash {c : Char} {cs : List Char} (hdash : wants '-' = none) (hc : wants c ≠ none)
    (words : List (List Char)) :
    getopt wants none (('-' :: c :: cs) :: words) =
      ((scanLetters wants (c :: cs)).1 ++ (getopt wants (scanLetters wants (c :: cs)).2 words).1,
        (getopt wants (scanLetters wants (c :: cs)).2 words).2) := by
  rw [getopt]
  rintro rfl -
  exact hc hdash

theorem OptWord.Valid.getopt_append (hdash : wants '-' = none) (h : w.Valid wants)
    (words : List (List Char)) :
    getopt wants none (w.words ++ words) =
      (w.opts ++ (getopt wants none words).1, (getopt wants none words).2) := by
  obtain ⟨flags, last⟩ := w
  obtain ⟨hflags, hlast⟩ := h
  dsimp only at hflags hlast
  -- the word has a first letter, and that is known
  have hword : ∀ rest words, flags ++ rest ≠ [] → (∀ c ∈ rest.head?, wants c ≠ none) →
      getopt wants none (('-' :: (flags ++ rest)) :: words) =
        (flags.map .flag ++ (scanLetters wants rest).1 ++
            (getopt wants (scanLetters wants rest).2 words).1,
          (getopt wants (scanLetters wants rest).2 words).2) := by
    intro rest words hne hrest
    obtain ⟨c, cs, hcs⟩ := List.exists_cons_of_ne_nil hne
    have hc : wants c ≠ none := by
      cases flags with
      | nil => exact hrest c (by rw [List.nil_append] at hcs; simp [hcs])
      | cons d flags =>
        obtain ⟨rfl, -⟩ : d = c ∧ _ := by simpa using hcs
        simp [hflags d List.mem_cons_self]
    have hscan := scanLetters_append hflags rest
    rw [hcs] at hscan ⊢
    rw [getopt_dash hdash hc, hscan]
  cases last with
  | nothing =>
    have hnil := hword [] words (by simpa using hlast) (by simp)
    simp only [List.append_nil] at hnil
    simpa [OptWord.words, OptWord.opts, scanLetters] using hnil
  | attached c optarg =>
    have hc := hword (c :: optarg) words (by simp) (by simp [hlast.1])
    simpa [OptWord.words, OptWord.opts, scanLetters, hlast] using hc
  | separate c optarg =>
    have hc := hword [c] (optarg :: words) (by simp) (by simp [hlast])
    simpa [OptWord.words, OptWord.opts, scanLetters, hlast, getopt] using hc

/-- **The words of an arrangement** give its options. -/
theorem Arranges.getopt_append (hdash : wants '-' = none) (h : Arranges wants ws words opts)
    (rest : List (List Char)) :
    getopt wants none (words ++ rest) =
      (opts ++ (getopt wants none rest).1, (getopt wants none rest).2) := by
  obtain ⟨hvalid, rfl, rfl⟩ := h
  induction ws with
  | nil => rfl
  | cons w ws ih =>
    rw [List.flatMap_cons, List.append_assoc,
      (hvalid w List.mem_cons_self).getopt_append hdash,
      ih fun v hv => hvalid v (List.mem_cons_of_mem w hv), List.flatMap_cons, List.append_assoc]

/-- The options of an arrangement are letters with the arguments they want. -/
theorem Arranges.forall_opts (h : Arranges wants ws words opts) {P : Opt → Prop}
    (hflag : ∀ c, wants c = some false → P (.flag c))
    (harg : ∀ c optarg, wants c = some true → P (.arg c optarg)) : ∀ o ∈ opts, P o := by
  obtain ⟨hvalid, -, rfl⟩ := h
  intro o ho
  obtain ⟨w, hw, ho⟩ := List.mem_flatMap.mp ho
  obtain ⟨hflags, hlast⟩ := hvalid w hw
  rcases List.mem_append.mp ho with ho | ho
  · obtain ⟨c, hc, rfl⟩ := List.mem_map.mp ho
    exact hflag c (hflags c hc)
  · cases hend : w.last with
    | nothing => simp [hend] at ho
    | attached c optarg =>
      rw [hend] at ho hlast
      obtain rfl := List.mem_singleton.mp ho
      exact harg c optarg hlast.1
    | separate c optarg =>
      rw [hend] at ho hlast
      obtain rfl := List.mem_singleton.mp ho
      exact harg c optarg hlast

/-! ## Only arrangements are -/

/-- The letters of a word without errors, and how it ends. -/
theorem exists_optEnd {cs : List Char} (h : ∀ c, Opt.bad c ∉ (scanLetters wants cs).1) :
    ∃ flags, (∀ c ∈ flags, wants c = some false) ∧
      ((cs = flags ∧ scanLetters wants cs = (flags.map .flag, none)) ∨
        ∃ c optarg, wants c = some true ∧ cs = flags ++ c :: optarg ∧
          scanLetters wants cs = if optarg = [] then (flags.map .flag, some c)
            else (flags.map .flag ++ [.arg c optarg], none)) := by
  induction cs with
  | nil => exact ⟨[], by simp, .inl ⟨rfl, rfl⟩⟩
  | cons c cs ih =>
    rw [scanLetters] at h ⊢
    cases hc : wants c with
    | none =>
      have hno := h c
      simp [hc] at hno
    | some wanted =>
      cases wanted with
      | true => exact ⟨[], by simp, .inr ⟨c, cs, hc, rfl, by split <;> simp_all⟩⟩
      | false =>
        simp only [hc, List.mem_cons, not_or] at h ⊢
        obtain ⟨flags, hflags, hends⟩ := ih fun d => (h d).2
        refine ⟨c :: flags, List.forall_mem_cons.mpr ⟨hc, hflags⟩, ?_⟩
        rcases hends with ⟨rfl, hscan⟩ | ⟨d, optarg, hd, rfl, hscan⟩
        · exact .inl ⟨rfl, by rw [hscan]; rfl⟩
        · refine .inr ⟨d, optarg, hd, rfl, ?_⟩
          rw [hscan]
          split <;> rfl

/-- What `getopt` reads without an error or an operand: an arrangement, and perhaps `--`. -/
def Reads (wants : Char → Option Bool) (words : List (List Char)) (opts : List Opt) : Prop :=
  ∃ ws words', Arranges wants ws words' opts ∧ (words = words' ∨ words = words' ++ [['-', '-']])

theorem Reads.cons (hw : w.Valid wants) (h : Reads wants words opts) :
    Reads wants (w.words ++ words) (w.opts ++ opts) := by
  obtain ⟨ws, words', ⟨hvalid, rfl, rfl⟩, hwords⟩ := h
  refine ⟨w :: ws, _, ⟨List.forall_mem_cons.mpr ⟨hw, hvalid⟩, rfl, rfl⟩, ?_⟩
  rcases hwords with rfl | rfl
  · exact .inl rfl
  · exact .inr (by simp)

/-- The same, where the first word may be the argument of a letter before it. -/
def ReadsFrom (wants : Char → Option Bool) :
    Option Char → List (List Char) → List Opt → Prop
  | none, words, opts => Reads wants words opts
  | some c, words, opts => ∃ optarg words' opts', words = optarg :: words' ∧
      opts = .arg c optarg :: opts' ∧ Reads wants words' opts'

/-- **A command line without errors and operands** is an arrangement, and perhaps `--`. -/
theorem readsFrom_of_getopt {waiting : Option Char} (hbad : ∀ c, Opt.bad c ∉ opts)
    (h : getopt wants waiting words = (opts, [])) : ReadsFrom wants waiting words opts := by
  induction words generalizing waiting opts with
  | nil =>
    cases waiting with
    | none =>
      cases h
      exact ⟨[], [], ⟨by simp, rfl, rfl⟩, .inl rfl⟩
    | some c =>
      cases h
      exact absurd List.mem_cons_self (hbad c)
  | cons word words ih =>
    cases waiting with
    | some c =>
      rw [getopt, Prod.mk.injEq] at h
      obtain ⟨rfl, hops⟩ := h
      exact ⟨word, words, _, rfl, rfl,
        ih (fun d hd => hbad d (List.mem_cons_of_mem _ hd)) (Prod.ext rfl hops)⟩
    | none =>
      unfold getopt at h
      split at h
      · cases h
        exact ⟨[], [], ⟨by simp, rfl, rfl⟩, .inr rfl⟩
      · next c cs _ =>
        rw [Prod.mk.injEq] at h
        obtain ⟨rfl, hops⟩ := h
        have hscan : ∀ d, Opt.bad d ∉ (scanLetters wants (c :: cs)).1 := fun d hd =>
          hbad d (List.mem_append_left _ hd)
        have hrest : ∀ d, Opt.bad d ∉ (getopt wants (scanLetters wants (c :: cs)).2 words).1 :=
          fun d hd => hbad d (List.mem_append_right _ hd)
        have hreads := ih hrest (Prod.ext rfl hops)
        obtain ⟨flags, hflags, hends⟩ := exists_optEnd hscan
        rcases hends with ⟨hword, hscan⟩ | ⟨d, optarg, hd, hword, hscan⟩
        · have hvalid : (⟨flags, .nothing⟩ : OptWord).Valid wants :=
            ⟨hflags, by rw [← hword]; exact List.cons_ne_nil c cs⟩
          rw [hscan] at hreads ⊢
          have hreads := hreads.cons hvalid
          rw [hword]
          simpa [ReadsFrom, OptWord.words, OptWord.opts] using hreads
        · rw [hscan] at hreads ⊢
          rw [hword]
          cases optarg with
          | nil =>
            -- the argument is the next word
            obtain ⟨optarg, words', opts', rfl, hopts, hrest⟩ := hreads
            have hvalid : (⟨flags, .separate d optarg⟩ : OptWord).Valid wants := ⟨hflags, hd⟩
            have hreads := hrest.cons hvalid
            rw [if_pos rfl]
            rw [if_pos rfl] at hopts
            rw [hopts]
            simpa [ReadsFrom, OptWord.words, OptWord.opts] using hreads
          | cons e optarg =>
            have hvalid : (⟨flags, .attached d (e :: optarg)⟩ : OptWord).Valid wants :=
              ⟨hflags, hd, List.cons_ne_nil e optarg⟩
            exact hreads.cons hvalid
      · cases h

/-- `getopt` gives options without errors and operands exactly for arrangements. -/
theorem getopt_eq_iff (hdash : wants '-' = none) (hbad : ∀ c, Opt.bad c ∉ opts) :
    getopt wants none words = (opts, []) ↔ Reads wants words opts := by
  refine ⟨readsFrom_of_getopt hbad, ?_⟩
  rintro ⟨ws, words', harranges, rfl | rfl⟩
  · simpa [getopt] using harranges.getopt_append hdash []
  · simpa [getopt] using harranges.getopt_append hdash [['-', '-']]

end

end Chronos.Lib
