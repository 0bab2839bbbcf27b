import Mowis.Streaming.Sse

/-!
# Streams cut into chunks

The loop decodes every chunk on its own.  A character of several bytes that is cut is lost, and
with it the data of its line; all other cuts are harmless.  What stands behind the last line feed
is never read.
-/

namespace Mowis.Streaming

open Mowis.Lib
open Mowis.Review (Json)

def dataOf (line : Text) : Option Text :=
  (afterPrefix dataPrefix (trim line)).filter fun data => data ≠ doneMark

def dataLines (lines : List Text) : List Text := lines.filterMap dataOf

def received (chunks : List (List UInt8)) : Text := chunks.flatMap lossyChars

section reader

variable {σ ρ : Type} (r : Reader σ ρ)

def Reader.outcome (parse : Parser) (data : List Text) : ρ :=
  r.finish parse (data.foldl (r.onData parse) r.start)

theorem foldl_onLine (parse : Parser) (lines : List Text) (s : σ) :
    lines.foldl (r.onLine parse) s = (dataLines lines).foldl (r.onData parse) s := by
  induction lines generalizing s with
  | nil => rfl
  | cons line lines ih =>
    rw [List.foldl_cons, ih, dataLines, dataLines, List.filterMap_cons, Reader.onLine, dataOf]
    cases afterPrefix dataPrefix (trim line) with
    | none => rfl
    | some data =>
      by_cases hdone : data = doneMark
      · rw [Option.filter_some, if_neg (by simpa using hdone)]
        simp [hdone]
      · rw [Option.filter_some, if_pos (by simpa using hdone)]
        simp [hdone]

theorem readFrom_chunks (parse : Parser) (chunks : List (List UInt8)) (bs : Text × σ) :
    r.readFrom parse (chunks.map .ok) bs = .ok (r.finish parse (chunks.foldl
      (fun bs chunk => drain (r.onLine parse) (bs.1 ++ lossyChars chunk) bs.2) bs).2) := by
  induction chunks generalizing bs with
  | nil => rfl
  | cons chunk chunks ih =>
    rw [List.map_cons, Reader.readFrom, ih]
    rfl

theorem read_chunks (parse : Parser) (chunks : List (List UInt8)) :
    r.read parse (chunks.map .ok) =
      .ok (r.outcome parse (dataLines (completeLines (received chunks)))) := by
  have hpieces : chunks.foldl
      (fun bs chunk => drain (r.onLine parse) (bs.1 ++ lossyChars chunk) bs.2) ([], r.start) =
      drain (r.onLine parse) (received chunks) r.start := by
    have h := foldl_drain (r.onLine parse) (chunks.map lossyChars) r.start
    rwa [List.foldl_map, ← List.flatMap_def] at h
  rw [Reader.read, readFrom_chunks, hpieces, drain_eq, foldl_onLine]
  rfl

def SplitFree (t : Text) : Prop :=
  ∀ chunks : List (List UInt8), chunks.flatten = utf8 t → ∀ parse : Parser,
    r.read parse (chunks.map .ok) = r.read parse [.ok (utf8 t)]

def Complete (t : Text) : Prop :=
  ∀ parse : Parser, r.read parse [.ok (utf8 t)] =
    .ok (r.outcome parse (dataLines (t.splitOn '\n')))

/-- Different data can be told apart by what is returned. -/
def Separates : Prop :=
  ∀ data data' : List Text, (∀ parse, r.outcome parse data = r.outcome parse data') → data = data'

theorem read_one (parse : Parser) (t : Text) :
    r.read parse [.ok (utf8 t)] = .ok (r.outcome parse (dataLines (completeLines t))) := by
  have h := read_chunks r parse [utf8 t]
  rw [received, List.flatMap_singleton, lossyChars_utf8] at h
  exact h

end reader

/-! ### One line -/

/-- The data of a line is ASCII; and the white space before it too, if there is any data. -/
def AsciiData (line : Text) : Prop :=
  ∀ w d, line = w ++ (dataPrefix ++ d) → (∀ c ∈ w, isWhitespace c = true) →
    (∀ c ∈ d, c.utf8Size = 1) ∧ (dataOf line ≠ none → ∀ c ∈ w, c.utf8Size = 1)

theorem isWhitespace_replacement : isWhitespace replacement = false := by
  rw [isWhitespace, toNat_replacement]
  decide

theorem ascii_dataPrefix : ∀ c ∈ dataPrefix, c.toNat < 0x80 := by
  simp [dataPrefix]

theorem ascii_doneMark : ∀ c ∈ doneMark, c.toNat < 0x80 := by
  simp [doneMark]

theorem trimEnd_isPrefix (t : Text) : trimEnd t <+: t := List.rdropWhile_prefix isWhitespace t

theorem dataOf_eq_none {line : Text} (h : ¬ dataPrefix <+: line.dropWhile isWhitespace) :
    dataOf line = none := by
  have hno : ¬ dataPrefix <+: trim line := fun hpre => h (hpre.trans (trimEnd_isPrefix _))
  rw [dataOf, afterPrefix, if_neg hno]
  rfl

theorem dropWhile_append_of_all {w : Text} (hw : ∀ c ∈ w, isWhitespace c = true) (t : Text) :
    (w ++ t).dropWhile isWhitespace = t.dropWhile isWhitespace := by
  rw [List.dropWhile_append, List.dropWhile_eq_nil_iff.mpr hw]
  rfl

theorem dropWhile_cons_of_not {c : Char} (hc : isWhitespace c = false) (t : Text) :
    (c :: t).dropWhile isWhitespace = c :: t := by
  rw [List.dropWhile_cons, if_neg (by simp [hc])]

theorem mangled_whitespace {w w' : Text} (h : Mangled w w') (hw : ∀ c ∈ w, isWhitespace c = true) :
    w' = w ∨ ∃ x y, w' = x ++ replacement :: y ∧ ∀ c ∈ x, isWhitespace c = true := by
  induction h with
  | nil => exact .inl rfl
  | keep c _ ih =>
    have hc := hw c List.mem_cons_self
    rcases ih fun d hd => hw d (List.mem_cons_of_mem _ hd) with rfl | ⟨x, y, rfl, hx⟩
    · exact .inl rfl
    · exact .inr ⟨c :: x, y, rfl, List.forall_mem_cons.mpr ⟨hc, hx⟩⟩
  | broken c n hc hn _ _ =>
    obtain ⟨m, rfl⟩ := Nat.exists_eq_add_of_le' (Nat.one_le_of_lt hn)
    exact .inr ⟨[], List.replicate m replacement ++ _, by rw [List.replicate_succ]; rfl, by simp⟩

theorem dataOf_replacement {x : Text} (hx : ∀ c ∈ x, isWhitespace c = true) (y : Text) :
    dataOf (x ++ replacement :: y) = none := by
  refine dataOf_eq_none ?_
  rw [dropWhile_append_of_all hx, dropWhile_cons_of_not isWhitespace_replacement]
  intro hpre
  have hhead := (List.cons_prefix_cons.mp hpre).1
  exact ne_replacement (ascii_dataPrefix 'd' List.mem_cons_self) hhead

theorem prefix_of_mangled {pre t t' : Text} (h : Mangled t t') (hpre : pre <+: t')
    (hascii : ∀ c ∈ pre, c.toNat < 0x80) : pre <+: t := by
  induction h generalizing pre with
  | nil => exact hpre
  | keep c _ ih =>
    cases pre with
    | nil => exact List.nil_prefix
    | cons d pre =>
      obtain ⟨rfl, hrest⟩ := List.cons_prefix_cons.mp hpre
      exact List.cons_prefix_cons.mpr
        ⟨rfl, ih hrest fun c hc => hascii c (List.mem_cons_of_mem _ hc)⟩
  | broken c n hc hn _ _ =>
    cases pre with
    | nil => exact List.nil_prefix
    | cons d pre =>
      obtain ⟨m, rfl⟩ := Nat.exists_eq_add_of_le' (Nat.one_le_of_lt hn)
      rw [List.replicate_succ, List.cons_append] at hpre
      exact absurd (List.cons_prefix_cons.mp hpre).1
        (ne_replacement (hascii d List.mem_cons_self))

theorem dropWhile_mangled {t t' : Text} (h : Mangled t t')
    (ht : ∀ c ∈ t.head?, isWhitespace c = false) : t'.dropWhile isWhitespace = t' := by
  cases h with
  | nil => rfl
  | keep c _ => exact dropWhile_cons_of_not (ht c rfl) _
  | broken c n hc hn _ =>
    obtain ⟨m, rfl⟩ := Nat.exists_eq_add_of_le' (Nat.one_le_of_lt hn)
    rw [List.replicate_succ, List.cons_append]
    exact dropWhile_cons_of_not isWhitespace_replacement _

/-- **No cut changes the data of a line whose data is ASCII.** -/
theorem dataOf_mangled {line line' : Text} (hascii : AsciiData line) (h : Mangled line line') :
    dataOf line' = dataOf line := by
  have hline : line.takeWhile isWhitespace ++ line.dropWhile isWhitespace = line :=
    List.takeWhile_append_dropWhile
  have hw : ∀ c ∈ line.takeWhile isWhitespace, isWhitespace c = true :=
    fun c hc => List.mem_takeWhile_imp hc
  rw [← hline] at h
  obtain ⟨w', u', rfl, hw', hu'⟩ := mangled_append_inv h
  by_cases hpre : dataPrefix <+: line.dropWhile isWhitespace
  · obtain ⟨d, hd⟩ := hpre
    obtain ⟨hdata, hspace⟩ := hascii _ d (by rw [hd, hline]) hw
    have hsame : u' = line.dropWhile isWhitespace := by
      refine hu'.eq_of_ascii fun c hc => ?_
      rw [← hd] at hc
      rcases List.mem_append.mp hc with hc | hc
      · exact utf8Size_ascii.mpr (ascii_dataPrefix c hc)
      · exact hdata c hc
    rw [hsame]
    by_cases hnone : dataOf line = none
    · rcases mangled_whitespace hw' hw with hw' | ⟨x, y, rfl, hx⟩
      · rw [hw', hline]
      · rw [List.append_assoc, List.cons_append, dataOf_replacement hx, hnone]
    · rw [hw'.eq_of_ascii (hspace hnone), hline]
  · rw [dataOf_eq_none hpre]
    rcases mangled_whitespace hw' hw with rfl | ⟨x, y, rfl, hx⟩
    · refine dataOf_eq_none fun hpre' => hpre ?_
      rw [dropWhile_append_of_all hw] at hpre'
      have hhead : ∀ c ∈ (line.dropWhile isWhitespace).head?, isWhitespace c = false := by
        intro c hc
        have hno := List.head?_dropWhile_not isWhitespace line
        rw [Option.mem_def.mp hc] at hno
        exact hno
      rw [dropWhile_mangled hu' hhead] at hpre'
      exact prefix_of_mangled hu' hpre' ascii_dataPrefix
    · rw [List.append_assoc, List.cons_append, dataOf_replacement hx]

theorem count_trimEnd (t : Text) : (trimEnd t).count replacement = t.count replacement := by
  have hsplit : trimEnd t ++ t.rtakeWhile isWhitespace = t := List.rdropWhile_append_rtakeWhile
  have hnone : (t.rtakeWhile isWhitespace).count replacement = 0 := by
    refine List.count_eq_zero.mpr fun hmem => ?_
    have hspace := List.mem_rtakeWhile_imp hmem
    rw [isWhitespace_replacement] at hspace
    cases hspace
  have hcount := congrArg (List.count replacement) hsplit
  rwa [List.count_append, hnone, Nat.add_zero] at hcount

theorem trimEnd_append (t : Text) {u : Text} (hu : replacement ∈ u) :
    trimEnd (t ++ u) = t ++ trimEnd u := by
  have hne : u.reverse.dropWhile isWhitespace ≠ [] := by
    intro hnil
    have hspace := List.dropWhile_eq_nil_iff.mp hnil replacement (List.mem_reverse.mpr hu)
    rw [isWhitespace_replacement] at hspace
    cases hspace
  rw [trimEnd, trimEnd, List.rdropWhile, List.rdropWhile, List.reverse_append, List.dropWhile_append,
    List.isEmpty_eq_false_iff.mpr hne, if_neg Bool.false_ne_true, List.reverse_append,
    List.reverse_reverse]

theorem trim_data {w : Text} (hw : ∀ c ∈ w, isWhitespace c = true) (d : Text) :
    trim (w ++ (dataPrefix ++ d)) = trimEnd (dataPrefix ++ d) := by
  have hstart : dataPrefix ++ d = 'd' :: ("ata: ".toList ++ d) := rfl
  rw [trim, dropWhile_append_of_all hw, hstart, dropWhile_cons_of_not (by decide)]

theorem dataOf_data {w : Text} (hw : ∀ c ∈ w, isWhitespace c = true) (d : Text) :
    dataOf (w ++ (dataPrefix ++ d)) =
      (afterPrefix dataPrefix (trimEnd (dataPrefix ++ d))).filter fun data => data ≠ doneMark := by
  rw [dataOf, trim_data hw]

theorem dataOf_eq_some {w d e : Text} (hw : ∀ c ∈ w, isWhitespace c = true)
    (h : dataOf (w ++ (dataPrefix ++ d)) = some e) : e.count replacement = d.count replacement := by
  rw [dataOf_data hw] at h
  obtain ⟨hafter, -⟩ := Option.filter_eq_some_iff.mp h
  rw [afterPrefix] at hafter
  split at hafter
  · next hpre =>
    obtain ⟨rest, hrest⟩ := hpre
    rw [← hrest, List.drop_left, Option.some.injEq] at hafter
    subst hafter
    have hcount := count_trimEnd (dataPrefix ++ d)
    rw [← hrest, List.count_append, List.count_append] at hcount
    exact Nat.add_left_cancel hcount
  · cases hafter

theorem dataOf_cut {w x y : Text} (hw : ∀ c ∈ w, isWhitespace c = true) {n : ℕ} (hn : 2 ≤ n) :
    ∃ e, dataOf (w ++ (dataPrefix ++ (x ++ List.replicate n replacement ++ y))) = some e ∧
      e.count replacement = x.count replacement + n + y.count replacement := by
  have hcount : (x ++ List.replicate n replacement ++ y).count replacement =
      x.count replacement + n + y.count replacement := by
    rw [List.count_append, List.count_append, List.count_replicate_self]
  have hmem : replacement ∈ x ++ List.replicate n replacement ++ y := by
    refine List.count_pos_iff.mp ?_
    omega
  refine ⟨trimEnd (x ++ List.replicate n replacement ++ y), ?_, by rw [count_trimEnd, hcount]⟩
  have hdone : trimEnd (x ++ List.replicate n replacement ++ y) ≠ doneMark := by
    intro heq
    have hzero : doneMark.count replacement = 0 := List.count_eq_zero.mpr fun h =>
      ne_replacement (ascii_doneMark _ h) rfl
    rw [← heq, count_trimEnd, hcount] at hzero
    omega
  rw [dataOf_data hw, trimEnd_append _ hmem, afterPrefix_append, Option.filter_some,
    if_pos (by simpa using hdone)]

/-- **In every other line there is a cut that changes the data.** -/
theorem exists_cut {line : Text} (h : ¬ AsciiData line) :
    ∃ a c b, line = a ++ c :: b ∧ 1 < c.utf8Size ∧ ∀ n, 2 ≤ n →
      dataOf (a ++ List.replicate n replacement ++ b) ≠ dataOf line := by
  have hsize : ∀ c : Char, c.utf8Size ≠ 1 → 1 < c.utf8Size := by
    intro c hc
    have := Char.utf8Size_pos c
    omega
  rw [AsciiData] at h
  push Not at h
  obtain ⟨w, d, hline, hw, himp⟩ := h
  by_cases hd : ∀ c ∈ d, c.utf8Size = 1
  · obtain ⟨hsome, c, hc, hne⟩ := himp hd
    obtain ⟨x, y, rfl⟩ := List.append_of_mem hc
    refine ⟨x, c, y ++ (dataPrefix ++ d), by simp [hline], hsize c hne, fun n hn => ?_⟩
    obtain ⟨m, rfl⟩ := Nat.exists_eq_add_of_le' (Nat.one_le_of_lt hn)
    rw [List.replicate_succ, List.append_assoc, List.cons_append,
      dataOf_replacement fun c hc => hw c (List.mem_append_left _ hc)]
    exact hsome.symm
  · push Not at hd
    obtain ⟨c, hc, hne⟩ := hd
    obtain ⟨x, y, rfl⟩ := List.append_of_mem hc
    refine ⟨w ++ (dataPrefix ++ x), c, y, by simp [hline], hsize c hne, fun n hn heq => ?_⟩
    obtain ⟨e, he, hcount⟩ := @dataOf_cut w x y hw n hn
    have hshape : w ++ (dataPrefix ++ x) ++ List.replicate n replacement ++ y =
        w ++ (dataPrefix ++ (x ++ List.replicate n replacement ++ y)) := by simp
    rw [hshape, he, hline] at heq
    have hsame := dataOf_eq_some hw heq.symm
    have hone : [c].count replacement ≤ 1 := List.count_le_length
    rw [List.count_append, List.count_cons] at hsame
    rw [List.count_singleton] at hone
    omega

theorem completeLines_split {t line : Text} (h : line ∈ completeLines t) :
    ∃ (before : List Text) (rest : Text), t = before.flatMap endLine ++ (endLine line ++ rest) ∧ '\n' ∉ line ∧
      ∀ l ∈ before, '\n' ∉ l := by
  induction t using text_induction with
  | nil => cases h
  | last l hne hl =>
    rw [completeLines_last hl] at h
    cases h
  | line l t hl ih =>
    rw [completeLines_line hl] at h
    rcases List.mem_cons.mp h with rfl | h
    · exact ⟨[], t, rfl, hl, by simp⟩
    · obtain ⟨before, rest, rfl, hline, hbefore⟩ := ih h
      refine ⟨l :: before, rest, ?_, hline, List.forall_mem_cons.mpr ⟨hl, hbefore⟩⟩
      rw [List.flatMap_cons, List.append_assoc]

theorem completeLines_flatMap {before : List Text} (h : ∀ l ∈ before, '\n' ∉ l) (t : Text) :
    completeLines (before.flatMap endLine ++ t) = before ++ completeLines t := by
  induction before with
  | nil => rfl
  | cons l before ih =>
    obtain ⟨hl, hbefore⟩ := List.forall_mem_cons.mp h
    rw [List.flatMap_cons, List.append_assoc, completeLines_line hl, ih hbefore, List.cons_append]

section reader

variable {σ ρ : Type} {r : Reader σ ρ}

/-- **A stream is read the same however it is cut exactly when the data of its lines is ASCII.** -/
theorem splitFree_iff (hr : Separates r) (t : Text) :
    SplitFree r t ↔ ∀ line ∈ completeLines t, AsciiData line := by
  constructor
  · intro h line hline
    by_contra hascii
    obtain ⟨a, c, b, rfl, hc, hcut⟩ := exists_cut hascii
    obtain ⟨before, rest, rfl, hl, hbefore⟩ := completeLines_split hline
    obtain ⟨p, q, hpq, n, hn, hdecoded⟩ := lossyChars_split hc (before.flatMap endLine ++ a)
      (b ++ '\n' :: rest)
    have htext : before.flatMap endLine ++ a ++ c :: (b ++ '\n' :: rest) =
        before.flatMap endLine ++ (endLine (a ++ c :: b) ++ rest) := by simp [endLine]
    have hchunks : [p, q].flatten = utf8 (before.flatMap endLine ++ (endLine (a ++ c :: b) ++ rest)) := by
      rw [← htext, ← hpq]
      simp
    have hcutLine : '\n' ∉ a ++ List.replicate n replacement ++ b := by
      intro hmem
      have hfeed : '\n' ≠ replacement := ne_replacement (by decide)
      simp only [List.mem_append, List.mem_cons, List.mem_replicate, not_or] at hmem hl
      tauto
    have hreceived : received [p, q] = before.flatMap endLine ++
        (endLine (a ++ List.replicate n replacement ++ b) ++ rest) := by
      rw [received, List.flatMap_cons, List.flatMap_singleton, hdecoded]
      simp [endLine]
    have hdata := hr (dataLines (completeLines (received [p, q])))
      (dataLines (completeLines (before.flatMap endLine ++ (endLine (a ++ c :: b) ++ rest))))
      fun parse => by
        have hread := h [p, q] hchunks parse
        rw [read_chunks, read_one] at hread
        exact Except.ok.inj hread
    rw [hreceived, completeLines_flatMap hbefore, completeLines_line hcutLine,
      completeLines_flatMap hbefore, completeLines_line hl] at hdata
    simp only [dataLines, List.filterMap_append, List.append_cancel_left_eq] at hdata
    refine hcut n hn ?_
    have hcons : ∀ line rest, List.filterMap dataOf (line :: rest) =
        (dataOf line).toList ++ List.filterMap dataOf rest := by
      intro line rest
      rw [List.filterMap_cons]
      cases dataOf line with
      | none => rfl
      | some e => rfl
    rw [hcons, hcons, List.append_cancel_right_eq] at hdata
    simpa using congrArg List.head? hdata
  · intro h chunks hchunks parse
    obtain ⟨r', hmangled, hr'⟩ := mangled_of_chunks chunks (by simp)
      (hchunks.trans (List.nil_append _).symm)
    have hlines := mangled_completeLines hmangled
    have hdata : ∀ {ls ls' : List Text}, List.Forall₂ Mangled ls ls' → (∀ l ∈ ls, AsciiData l) →
        dataLines ls' = dataLines ls := by
      intro ls ls' hforall hall
      induction hforall with
      | nil => rfl
      | cons hline _ ih =>
        obtain ⟨hfirst, hrest⟩ := List.forall_mem_cons.mp hall
        rw [dataLines, dataLines, List.filterMap_cons, List.filterMap_cons,
          dataOf_mangled hfirst hline, ← dataLines, ← dataLines, ih hrest]
    have hreceived : received chunks = r' := hr'
    rw [read_chunks, read_one, hreceived, hdata hlines h]

/-- **All data counts exactly when none stands behind the last line feed.** -/
theorem complete_iff (hr : Separates r) (t : Text) : Complete r t ↔ dataOf (openLine t) = none := by
  have hall : dataLines (t.splitOn '\n') =
      dataLines (completeLines t) ++ (dataOf (openLine t)).toList := by
    rw [splitOn_eq_completeLines, dataLines, dataLines, List.filterMap_append]
    cases hopen : dataOf (openLine t) with
    | none => simp [hopen]
    | some e => simp [hopen]
  constructor
  · intro h
    have hdata := hr (dataLines (completeLines t)) (dataLines (t.splitOn '\n')) fun parse => by
      have hread := h parse
      rw [read_one] at hread
      exact Except.ok.inj hread
    rw [hall, List.self_eq_append_right] at hdata
    exact Option.toList_eq_nil_iff.mp hdata
  · intro h parse
    rw [read_one, hall, h, Option.toList_none, List.append_nil]

end reader

def code (t : Text) : Text := t.flatMap (fun c => ['1', c]) ++ ['0']

theorem code_ne_nil (t : Text) : code t ≠ [] := by simp [code]

theorem code_append_inj {t t' x x' : Text} (h : code t ++ x = code t' ++ x') : t = t' ∧ x = x' := by
  induction t generalizing t' with
  | nil =>
    cases t' with
    | nil => exact ⟨rfl, List.tail_eq_of_cons_eq h⟩
    | cons c t' => simp [code] at h
  | cons c t ih =>
    cases t' with
    | nil => simp [code] at h
    | cons c' t' =>
      simp only [code, List.flatMap_cons, List.cons_append, List.nil_append, List.cons.injEq,
        true_and] at h
      obtain ⟨rfl, hx⟩ := ih h.2
      exact ⟨by rw [h.1], hx⟩

theorem flatMap_code_inj {data data' : List Text} (h : data.flatMap code = data'.flatMap code) :
    data = data' := by
  induction data generalizing data' with
  | nil =>
    cases data' with
    | nil => rfl
    | cons t data' => simp [code] at h
  | cons t data ih =>
    cases data' with
    | nil => simp [code] at h
    | cons t' data' =>
      rw [List.flatMap_cons, List.flatMap_cons] at h
      obtain ⟨rfl, hrest⟩ := code_append_inj h
      rw [ih hrest]

theorem separates_of_shown {σ ρ : Type} {r : Reader σ ρ} (event : Text → Json) (shown : ρ → Text)
    (hshown : ∀ data, shown (r.outcome (fun d => some (event (code d))) data) = data.flatMap code) :
    Separates r := by
  intro data data' h
  have hsame := congrArg shown (h fun d => some (event (code d)))
  rw [hshown, hshown] at hsame
  exact flatMap_code_inj hsame

def contentEvent (t : Text) : Json :=
  .object [("choices".toList, .array [.object [("delta".toList,
    .object [("content".toList, .string t)])]])]

def deltaEvent (t : Text) : Json := .object [("delta".toList, .object [("text".toList, .string t)])]

theorem pushText_code (s : ChatState) (t : Text) :
    (s.pushText (some (code t))).fullText = s.fullText ++ code t := by
  rw [ChatState.pushText, if_neg (code_ne_nil t)]

theorem separates_generateChatOpenaiStreaming : Separates generateChatOpenaiStreaming := by
  refine separates_of_shown contentEvent (fun reply => reply.text.toList) fun data => ?_
  have hfold : ∀ s : ChatState, (data.foldl (generateChatOpenaiStreaming.onData
      fun d => some (contentEvent (code d))) s).fullText = s.fullText ++ data.flatMap code := by
    induction data with
    | nil => intro s; simp
    | cons d data ih =>
      intro s
      have hone : generateChatOpenaiStreaming.onData (fun d => some (contentEvent (code d))) s d =
          s.pushText (some (code d)) := rfl
      rw [List.foldl_cons, ih, hone, pushText_code, List.flatMap_cons, List.append_assoc]
  show (String.ofList _).toList = _
  rw [String.toList_ofList, hfold]
  rfl

theorem separates_generateChatAnthropicStreaming : Separates generateChatAnthropicStreaming := by
  refine separates_of_shown deltaEvent (fun reply => reply.text.toList) fun data => ?_
  have hfold : ∀ s : ChatState, (data.foldl (generateChatAnthropicStreaming.onData
      fun d => some (deltaEvent (code d))) s).fullText = s.fullText ++ data.flatMap code := by
    induction data with
    | nil => intro s; simp
    | cons d data ih =>
      intro s
      have hone : generateChatAnthropicStreaming.onData (fun d => some (deltaEvent (code d))) s d =
          s.pushText (some (code d)) := rfl
      rw [List.foldl_cons, ih, hone, pushText_code, List.flatMap_cons, List.append_assoc]
  show (String.ofList _).toList = _
  rw [String.toList_ofList, hfold]
  rfl

theorem separates_callAgentRoundOpenaiCompatStreaming :
    Separates callAgentRoundOpenaiCompatStreaming := by
  refine separates_of_shown contentEvent (fun reply => (reply.round.text.getD "").toList)
    fun data => ?_
  have hfold : ∀ s : RoundState, (data.foldl (callAgentRoundOpenaiCompatStreaming.onData
      fun d => some (contentEvent (code d))) s).chat.fullText =
        s.chat.fullText ++ data.flatMap code := by
    induction data with
    | nil => intro s; simp
    | cons d data ih =>
      intro s
      have hone : (callAgentRoundOpenaiCompatStreaming.onData
          (fun d => some (contentEvent (code d))) s d).chat = s.chat.pushText (some (code d)) := rfl
      rw [List.foldl_cons, ih, hone, pushText_code, List.flatMap_cons, List.append_assoc]
  have hall := hfold callAgentRoundOpenaiCompatStreaming.start
  rw [show callAgentRoundOpenaiCompatStreaming.start.chat.fullText = [] from rfl,
    List.nil_append] at hall
  show (Option.getD (if _ = [] then none else some _) "").toList = _
  rw [hall]
  split
  · next hnil => rw [hnil]; rfl
  · exact String.toList_ofList

def Harmless (t : Text) : Prop :=
  (∀ line ∈ completeLines t, AsciiData line) ∧ dataOf (openLine t) = none

theorem read_iff {σ ρ : Type} {r : Reader σ ρ} (hr : Separates r) (t : Text) :
    SplitFree r t ∧ Complete r t ↔ Harmless t :=
  and_congr (splitFree_iff hr t) (complete_iff hr t)

/-- **A streamed reply is read the same however it is cut, and all of it is read, exactly when the
data of its complete lines is ASCII and there is none behind the last line feed.** -/
theorem streams_read_iff (t : Text) :
    (SplitFree callAgentRoundOpenaiCompatStreaming t ∧
        Complete callAgentRoundOpenaiCompatStreaming t ↔ Harmless t) ∧
      (SplitFree generateChatOpenaiStreaming t ∧ Complete generateChatOpenaiStreaming t ↔
        Harmless t) ∧
      (SplitFree generateChatAnthropicStreaming t ∧ Complete generateChatAnthropicStreaming t ↔
        Harmless t) :=
  ⟨read_iff separates_callAgentRoundOpenaiCompatStreaming t,
    read_iff separates_generateChatOpenaiStreaming t,
    read_iff separates_generateChatAnthropicStreaming t⟩

def contentData (t : String) : String :=
  "\x7b\"choices\":[\x7b\"delta\":\x7b\"content\":\"" ++ t ++ "\"\x7d\x7d]\x7d"

def knowing (texts : List String) : Parser := fun data =>
  (texts.find? fun t => (contentData t).toList = data).map fun t => contentEvent t.toList

def accentStream : Text := ("data: " ++ contentData "é" ++ "\n").toList

/-- The two bytes of the letter arrive in two chunks. -/
theorem accent_lost :
    ¬ (SplitFree generateChatOpenaiStreaming accentStream ∧
      Complete generateChatOpenaiStreaming accentStream) := by
  rintro ⟨h, -⟩
  have hread := congrArg (fun reply => reply.toOption.map ChatReply.tokens)
    (h [(utf8 accentStream).take 40, (utf8 accentStream).drop 40] (by simp) (knowing ["é", "��"]))
  revert hread
  decide +kernel

end Mowis.Streaming
