import BengalMarket.Benchmark.Bundle
import BengalMarket.Library.Template
import Mathlib.Data.List.Nodup

namespace BengalMarket.Benchmark

open Directories (Path)
open Template (append_cons_inj)

structure Measured where
  iteration : Nat
  order : Nat
  engine : String
  deriving DecidableEq

def Measured.stem (r : Measured) : String :=
  Benchmark.stem r.iteration r.order r.engine true

def Measured.report (r : Measured) : Path := ["runs", r.stem ++ ".json"]

def Measured.error (r : Measured) : Path := ["runs", r.stem ++ ".stderr.txt"]

/-- The engine that goes first changes with every iteration. -/
def pair (iteration : Nat) : List Measured :=
  let bengalFirst := iteration % 2 != 0
  [⟨iteration, 1, if bengalFirst then "bengal" else "standard"⟩,
    ⟨iteration, 2, if bengalFirst then "standard" else "bengal"⟩]

def Options.measured (options : Options) : List Measured :=
  (List.range' 1 options.runs).flatMap pair

theorem runPair_eq (measured : Bool) (iteration : Nat) : runPair measured iteration =
    (pair iteration).flatMap fun r => runReplay r.iteration r.order r.engine measured := by
  simp [runPair, pair]

section Names

theorem toList_pushn (count : Nat) :
    ("".pushn '0' count).toList = List.replicate count '0' := by
  rw [String.pushn_eq_repeat_push]
  induction count with
  | zero => rfl
  | succ count ih => simp [Nat.repeat, ih, List.replicate_succ']

theorem toList_padded (width value : Nat) : ∃ zeros,
    (padded width value).toList = List.replicate zeros '0' ++ Nat.toDigits 10 value := by
  refine ⟨width - (toString value).length, ?_⟩
  rw [padded, String.toList_append, toList_pushn]
  simp

theorem padded_injective {width a b : Nat} (h : padded width a = padded width b) : a = b := by
  have hread (value : Nat) : Nat.ofDigitChars 10 (padded width value).toList 0 = value := by
    obtain ⟨zeros, hlist⟩ := toList_padded width value
    rw [hlist, Nat.ofDigitChars_append, Nat.ofDigitChars_replicate_zero, Nat.mul_zero,
      Nat.ofDigitChars_ten_toDigits]
  rw [← hread a, h, hread]

theorem dash_not_mem_padded (width value : Nat) : '-' ∉ (padded width value).toList := by
  obtain ⟨zeros, hlist⟩ := toList_padded width value
  rw [hlist, List.mem_append, not_or]
  constructor
  · intro h
    cases List.eq_of_mem_replicate h
  · intro h
    have hdigit := Nat.isDigit_of_mem_toDigits (by decide) (by decide) h
    cases hdigit

theorem stem_injective {r r' : Measured} (h : r.stem = r'.stem) : r = r' := by
  obtain ⟨iteration, order, engine⟩ := r
  obtain ⟨iteration', order', engine'⟩ := r'
  have hlist := congrArg String.toList h
  simp only [Measured.stem, stem, if_true, String.toList_append, List.append_assoc] at hlist
  have htail := List.append_cancel_left hlist
  obtain ⟨hiteration, hrest⟩ :=
    append_cons_inj (dash_not_mem_padded 3 _) (dash_not_mem_padded 3 _) htail
  obtain ⟨horder, hengine⟩ := append_cons_inj (dash_not_mem_padded 2 _) (dash_not_mem_padded 2 _)
    (@List.append_cancel_left _ "order-".toList _ _ hrest)
  have h₁ := padded_injective (String.toList_inj.1 hiteration)
  have h₂ := padded_injective (String.toList_inj.1 horder)
  have h₃ := String.toList_inj.1 hengine
  rw [h₁, h₂, h₃]

theorem report_injective {r r' : Measured} (h : r.report = r'.report) : r = r' := by
  simp only [Measured.report, List.cons.injEq, true_and, and_true] at h
  have hlist := congrArg String.toList h
  rw [String.toList_append, String.toList_append] at hlist
  exact stem_injective (String.toList_inj.1 (List.append_cancel_right hlist))

theorem error_ne_report (r r' : Measured) : r.error ≠ r'.report := by
  simp only [Measured.error, Measured.report, ne_eq, List.cons.injEq, true_and, and_true]
  intro h
  have hlast := congrArg (fun text : String => text.toList.getLast?) h
  simp at hlast

theorem warmup_ne_fixture (iteration order : Nat) (engine suffix : String) :
    [stem iteration order engine false ++ suffix] ≠ ["fixture.sha256"] := by
  simp only [ne_eq, List.cons.injEq, and_true]
  intro h
  have hfirst := congrArg (fun text : String => text.toList.head?) h
  simp [stem] at hfirst

end Names

section Order

theorem mem_measured_iff {options : Options} {r : Measured} :
    r ∈ options.measured ↔ 1 ≤ r.iteration ∧ r.iteration ≤ options.runs ∧ r ∈ pair r.iteration := by
  have hiteration {iteration : Nat} (h : r ∈ pair iteration) : r.iteration = iteration := by
    simp only [pair, List.mem_cons, List.not_mem_nil, or_false] at h
    rcases h with rfl | rfl <;> rfl
  simp only [Options.measured, List.mem_flatMap, List.mem_range'_1]
  constructor
  · rintro ⟨iteration, hrange, hr⟩
    obtain rfl := hiteration hr
    exact ⟨hrange.1, by omega, hr⟩
  · rintro ⟨hlow, hhigh, hr⟩
    exact ⟨r.iteration, ⟨hlow, by omega⟩, hr⟩

theorem engine_of_mem {options : Options} {r : Measured} (h : r ∈ options.measured) :
    r.engine = "bengal" ∨ r.engine = "standard" := by
  obtain ⟨-, -, hpair⟩ := mem_measured_iff.1 h
  simp only [pair, List.mem_cons, List.not_mem_nil, or_false] at hpair
  cases hfirst : r.iteration % 2 != 0 <;> rw [hfirst] at hpair <;>
    rcases hpair with hr | hr <;> rw [hr] <;> simp

theorem nodup_measured (options : Options) : options.measured.Nodup := by
  rw [Options.measured, List.nodup_flatMap]
  refine ⟨fun iteration _ => by simp [pair], ?_⟩
  refine List.Pairwise.imp ?_ List.nodup_range'
  intro a b hne r ha hb
  refine hne ?_
  simp only [pair, List.mem_cons, List.not_mem_nil, or_false] at ha hb
  rcases ha with rfl | rfl <;> rcases hb with hb | hb <;> exact (Measured.mk.inj hb).1

theorem length_filter_pairs (iterations : List Nat) {engine : String}
    (hengine : engine = "bengal" ∨ engine = "standard") :
    ((iterations.flatMap pair).filter fun r => r.engine = engine).length = iterations.length := by
  induction iterations with
  | nil => rfl
  | cons iteration iterations ih =>
    rw [List.flatMap_cons, List.filter_append, List.length_append, ih, List.length_cons]
    have hone : ((pair iteration).filter fun r => r.engine = engine).length = 1 := by
      cases hfirst : iteration % 2 != 0 <;> rcases hengine with rfl | rfl <;>
        simp [pair, hfirst]
    omega

theorem length_measured (options : Options) : options.measured.length = 2 * options.runs := by
  have hlength (iterations : List Nat) : (iterations.flatMap pair).length =
      2 * iterations.length := by
    induction iterations with
    | nil => rfl
    | cons iteration iterations ih =>
      rw [List.flatMap_cons, List.length_append, ih, List.length_cons, pair]
      simp only [List.length_cons, List.length_nil]
      omega
  rw [Options.measured, hlength, List.length_range']

end Order

end BengalMarket.Benchmark
