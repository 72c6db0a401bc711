import Patrons.Library.Intervals
import Patrons.Model.Protect
import Patrons.Verification.Hook.ProcMaps

/-! # The protection that `xh_util` finds

The lines of `/proc/self/maps` are walked through once. A range is found where mappings of the
file cover it, with the protection that they have in common. -/

namespace Patrons.Xhook

open Scan Paging Loop

namespace Vma

variable (v : Vma)

def prot : Prot := ⟨v.read, v.write, v.exec⟩

def interval : ℕ × ℕ := (v.start.toNat, v.stop.toNat)

/-- The line is looked at for a pathname. -/
def serves (pad : ℕ) (pathname : Option (List Char)) : Bool :=
  !v.shared && pathname.all fun pathname => decide (pathname <:+: v.text pad ++ ['\n'])

variable {v : Vma} {pad : ℕ}

theorem scan_protect (len : ℕ) :
    scan len protectFormat (v.text pad ++ ['\n']) =
      [.num v.start.toNat, .num v.stop.toNat, .word v.perms] := by
  have hhex : 2 ≤ 16 ∧ 16 ≤ 16 := by decide
  have hstart : v.start.toNat < 2 ^ 64 := by omega
  have hstop : v.stop.toNat < 2 ^ 64 := by omega
  have hperms : ∀ rest, ∀ c ∈ (v.perms ++ rest).head?, isSpace c = false := by
    intro rest c hc
    exact (perms_plain c (List.mem_of_mem_head? (by simpa [perms] using hc))).1
  simp only [text, protectFormat, List.append_assoc, List.cons_append]
  rw [scan_num hhex 8 hstart (stops_cons (by decide) (by decide)), scan_lit,
    scan_num hhex 8 hstop (stops_cons (by decide) (by decide)), scan_space (hperms _),
    show 4 = v.perms.length from rfl, scan_word (by simp [perms]) fun c hc => (perms_plain c hc).1,
    scan_space (head_numeral hhex _ _), scan]

/-- One line: the mapping is looked at if it serves and has the address that comes next. -/
theorem protectLine_text (h : v.Printable pad) (endAddr : Addr) (pathname : Option (List Char))
    (vars : ProtectVars) :
    ∃ perm, protectLine endAddr pathname (v.text pad ++ ['\n']) vars =
      if v.serves pad pathname ∧ v.start ≤ vars.startAddr ∧ vars.startAddr < v.stop then
        let prot := if vars.load0 then firstProt v.perms vars.prot else nextProt v.perms vars.prot
        if endAddr ≤ v.stop then (some (), ⟨vars.startAddr, perm, false, prot⟩)
        else (none, ⟨v.stop, perm, false, prot⟩)
      else (none, { vars with perm := perm }) := by
  have hcstr : cString (v.text pad ++ ['\n']) = v.text pad ++ ['\n'] := by
    rw [cString, List.takeWhile_eq_self_iff]
    intro c hc
    rw [bne_iff_ne]
    rintro rfl
    rcases List.mem_append.mp hc with hc | hc
    · exact (text_plain h).1 hc
    · simp [nul] at hc
  have hstart : BitVec.ofNat 32 v.start.toNat = v.start := by simp
  have hstop : BitVec.ofNat 32 v.stop.toNat = v.stop := by simp
  have hfourth : (overwrite vars.perm v.perms)[3]? = some (if v.shared then 's' else 'p') := rfl
  have hfirst : ∀ prot, firstProt (overwrite vars.perm v.perms) prot = firstProt v.perms prot :=
    fun _ => rfl
  have hnext : ∀ prot, nextProt (overwrite vars.perm v.perms) prot = nextProt v.perms prot :=
    fun _ => rfl
  simp only [protectLine, hcstr, scan_protect, hstart, hstop, hfourth, hfirst, hnext]
  by_cases hpath : ∀ p ∈ pathname, p <:+: v.text pad ++ ['\n']
  · have hany : (pathname.any fun pathname => !decide (pathname <:+: v.text pad ++ ['\n'])) =
        false := by
      cases pathname with
      | none => rfl
      | some p => simp [hpath p rfl]
    have hserves : v.serves pad pathname = !v.shared := by
      cases pathname with
      | none => simp [serves]
      | some p => simp [serves, hpath p rfl]
    refine ⟨overwrite vars.perm v.perms, ?_⟩
    simp only [hany, hserves]
    cases v.shared with
    | true => simp
    | false => cases vars.load0 <;> simp
  · obtain ⟨p, rfl, hp⟩ : ∃ p, pathname = some p ∧ ¬p <:+: v.text pad ++ ['\n'] := by
      simpa using hpath
    have hserves : v.serves pad (some p) = false := by simp [serves, hp]
    refine ⟨vars.perm, ?_⟩
    rw [if_pos (by simpa using hp), if_neg (by simp [hserves])]

end Vma

/-! ## The walk -/

def protAfter : List Vma → Bool → SizeT → SizeT
  | [], _, prot => prot
  | v :: vs, load0, prot =>
    protAfter vs false (if load0 then firstProt v.perms prot else nextProt v.perms prot)

/-- The loop is the walk over the intervals of the mappings that serve. -/
theorem forEach_protectLine (pad : Vma → ℕ) {vmas : List Vma}
    (h : ∀ v ∈ vmas, v.Printable (pad v)) (endAddr : Addr) (pathname : Option (List Char))
    (vars : ProtectVars) :
    match Intervals.cover Vma.interval endAddr.toNat
        (vmas.filter fun v => v.serves (pad v) pathname) vars.startAddr.toNat with
    | some vs => ∃ vars', vars'.prot = protAfter vs vars.load0 vars.prot ∧
        forEach (protectLine endAddr pathname) (vmas.map fun v => v.text (pad v) ++ ['\n']) vars =
          (some (), vars')
    | none =>
      (forEach (protectLine endAddr pathname) (vmas.map fun v => v.text (pad v) ++ ['\n']) vars).1 =
        none := by
  induction vmas generalizing vars with
  | nil => rfl
  | cons v vmas ih =>
      have hrest := fun vars => ih (fun u hu => h u (List.mem_cons_of_mem v hu)) vars
      obtain ⟨perm, hline⟩ := Vma.protectLine_text (h v (by simp)) endAddr pathname vars
      rw [List.map_cons, forEach]
      cases hserves : v.serves (pad v) pathname with
      | false =>
          rw [hline, if_neg (by simp [hserves]), List.filter_cons_of_neg (by simp [hserves])]
          exact hrest { vars with perm := perm }
      | true =>
          rw [List.filter_cons_of_pos (by simp [hserves]), Intervals.cover]
          by_cases hin : v.start ≤ vars.startAddr ∧ vars.startAddr < v.stop
          · have hin' : v.interval.1 ≤ vars.startAddr.toNat ∧ vars.startAddr.toNat < v.interval.2 :=
              hin
            rw [if_pos hin', hline]
            simp only [hserves, hin, and_self, ↓reduceIte]
            by_cases hend : endAddr ≤ v.stop
            · have hend' : endAddr.toNat ≤ v.interval.2 := hend
              simp only [if_pos hend, if_pos hend']
              exact ⟨_, rfl, rfl⟩
            · have hend' : ¬endAddr.toNat ≤ v.interval.2 := hend
              have hnext := hrest ⟨v.stop, perm, false,
                if vars.load0 then firstProt v.perms vars.prot else nextProt v.perms vars.prot⟩
              simp only [if_neg hend, if_neg hend']
              cases hcover : Intervals.cover Vma.interval endAddr.toNat
                (vmas.filter fun v => v.serves (pad v) pathname) v.stop.toNat with
              | none =>
                  simp only [hcover] at hnext
                  simp only [Vma.interval, hcover]
                  exact hnext
              | some vs =>
                  simp only [hcover] at hnext
                  simp only [Vma.interval, hcover]
                  exact hnext
          · have hin' : ¬(v.interval.1 ≤ vars.startAddr.toNat ∧
                vars.startAddr.toNat < v.interval.2) := hin
            rw [if_neg hin', hline]
            simp only [hserves, hin, and_false, ↓reduceIte]
            exact hrest { vars with perm := perm }

/-! ## What the walk finds -/

def common (vs : List Vma) : Prot := ⟨vs.all (·.read), vs.all (·.write), vs.all (·.exec)⟩

theorem common_congr {us vs : List Vma} (h : ∀ v, v ∈ us ↔ v ∈ vs) : common us = common vs := by
  have hall : ∀ f : Vma → Bool, us.all f = vs.all f := by
    intro f
    rw [Bool.eq_iff_iff, List.all_eq_true, List.all_eq_true]
    exact forall_congr' fun v => by rw [h]
  rw [common, common, hall, hall, hall]

theorem firstProt_perms (v : Vma) : firstProt v.perms 0 = v.prot.bits := by
  rcases v with ⟨_, _, _ | _, _ | _, _ | _⟩ <;> simp [firstProt, Vma.perms, Vma.prot, Prot.bits]

theorem nextProt_perms (v : Vma) (p : Prot) :
    nextProt v.perms p.bits = (p.inter v.prot).bits := by
  rcases p with ⟨_ | _, _ | _, _ | _⟩ <;> rcases v with ⟨_, _, _ | _, _ | _, _ | _⟩ <;>
    simp [nextProt, Vma.perms, Vma.prot, Prot.inter, Prot.bits]

theorem protAfter_false (vs : List Vma) (p : Prot) :
    protAfter vs false p.bits = (p.inter (common vs)).bits := by
  induction vs generalizing p with
  | nil => simp [protAfter, common, Prot.inter]
  | cons v vs ih =>
      have hnext : protAfter (v :: vs) false p.bits =
          protAfter vs false (nextProt v.perms p.bits) := rfl
      rw [hnext, nextProt_perms, ih]
      simp [common, Prot.inter, Vma.prot, Bool.and_assoc]

theorem protAfter_true {vs : List Vma} (h : vs ≠ []) :
    protAfter vs true 0 = (common vs).bits := by
  cases vs with
  | nil => exact absurd rfl h
  | cons v vs =>
      have hfirst : protAfter (v :: vs) true 0 = protAfter vs false (firstProt v.perms 0) := rfl
      rw [hfirst, firstProt_perms, protAfter_false]
      simp [common, Prot.inter, Vma.prot]

def Vma.meets (lo hi : ℕ) (v : Vma) : Bool := v.start.toNat < hi && lo < v.stop.toNat

theorem common_cover {vs us : List Vma} {lo hi : ℕ} (h : Intervals.Ascending Vma.interval vs)
    (hlt : lo < hi) (hus : Intervals.cover Vma.interval hi vs lo = some us) :
    common us = common (vs.filter (Vma.meets lo hi)) := by
  apply common_congr
  intro v
  rw [Intervals.mem_cover_iff h hlt hus, List.mem_filter]
  simp [Vma.meets, Vma.interval]

theorem getMemProtect_eq (pad : Vma → ℕ) {vmas : List Vma}
    (hprintable : ∀ v ∈ vmas, v.Printable (pad v)) (perm : List Char) (addr : Addr) (len : SizeT)
    (pathname : Option (List Char)) :
    match Intervals.cover Vma.interval (addr + len).toNat
        (vmas.filter fun v => v.serves (pad v) pathname) addr.toNat with
    | some vs =>
      xhUtilGetMemProtect (some (Text.unlines (vmas.map fun v => v.text (pad v)))) perm addr len
        pathname = (0, (common vs).bits)
    | none =>
      (xhUtilGetMemProtect (some (Text.unlines (vmas.map fun v => v.text (pad v)))) perm addr len
        pathname).1 = errnoSegverr := by
  have hloop := forEach_protectLine pad hprintable (addr + len) pathname ⟨addr, perm, true, 0⟩
  simp only [xhUtilGetMemProtect, pieces_text pad hprintable]
  cases hcover : Intervals.cover Vma.interval (addr + len).toNat
      (vmas.filter fun v => v.serves (pad v) pathname) addr.toNat with
  | none =>
      simp only [hcover] at hloop ⊢
      rw [if_pos hloop]
  | some vs =>
      simp only [hcover] at hloop ⊢
      obtain ⟨vars, hprot, hrun⟩ := hloop
      rw [hrun, if_neg (Option.some_ne_none ()), hprot,
        protAfter_true (Intervals.cover_ne_nil hcover)]

/-- A range is found exactly where private mappings cover it whose lines have the pathname in
them, with the protection that those of them have in common that meet the range. -/
theorem getMemProtect_text (pad : Vma → ℕ) {vmas : List Vma}
    (hprintable : ∀ v ∈ vmas, v.Printable (pad v))
    (hascending : Intervals.Ascending Vma.interval vmas) {addr : Addr} {len : SizeT}
    (hlen : len ≠ 0) (hwrap : addr.toNat + len.toNat < 2 ^ 32) (pathname : Option (List Char))
    (perm : List Char) :
    let vs := vmas.filter fun v => v.serves (pad v) pathname
    let r := xhUtilGetMemProtect (some (Text.unlines (vmas.map fun v => v.text (pad v)))) perm
      addr len pathname
    (Intervals.Covered Vma.interval vs addr.toNat (addr.toNat + len.toNat) ∧
      r = (0, (common (vs.filter (Vma.meets addr.toNat (addr.toNat + len.toNat)))).bits)) ∨
    (¬Intervals.Covered Vma.interval vs addr.toNat (addr.toNat + len.toNat) ∧
      r.1 = errnoSegverr) := by
  intro vs r
  have hend : (addr + len).toNat = addr.toNat + len.toNat := by bv_omega
  have hlt : addr.toNat < addr.toNat + len.toNat := by bv_omega
  have hvs : Intervals.Ascending Vma.interval vs := hascending.filter _
  have hwalk := getMemProtect_eq pad hprintable perm addr len pathname
  rw [hend] at hwalk
  rw [← Intervals.cover_isSome_iff hvs hlt]
  cases hcover : Intervals.cover Vma.interval (addr.toNat + len.toNat) vs addr.toNat with
  | none =>
      rw [hcover] at hwalk
      exact Or.inr ⟨by simp, hwalk⟩
  | some us =>
      rw [hcover] at hwalk
      exact Or.inl ⟨rfl, common_cover hvs hlt hcover ▸ hwalk⟩

theorem printedMaps_ascending : Intervals.Ascending Vma.interval printedMaps where
  sorted := by decide
  nonempty := by decide

/-- Sixteen bytes across the end of the first segment. -/
theorem getMemProtect_text_printedMaps :
    let pathname := some "/system/lib/libart.so".toList
    let vs := printedMaps.filter fun v => v.serves 10 pathname
    let r := xhUtilGetMemProtect (some (Text.unlines (printedMaps.map fun v => v.text 10))) []
      0xb6f0fff8 16 pathname
    (Intervals.Covered Vma.interval vs 0xb6f0fff8 (0xb6f0fff8 + 16) ∧
      r = (0, (common (vs.filter (Vma.meets 0xb6f0fff8 (0xb6f0fff8 + 16)))).bits)) ∨
    (¬Intervals.Covered Vma.interval vs 0xb6f0fff8 (0xb6f0fff8 + 16) ∧ r.1 = errnoSegverr) :=
  have hlen : (16 : SizeT) ≠ 0 := by decide
  have hwrap : (0xb6f0fff8 : Addr).toNat + (16 : SizeT).toNat < 2 ^ 32 := by decide
  getMemProtect_text (fun _ => 10) printedMaps_printable printedMaps_ascending hlen hwrap _ []

end Patrons.Xhook
