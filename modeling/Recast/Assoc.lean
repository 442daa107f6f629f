set_option autoImplicit false

/-!
# Ordered association lists

Entries keep the order in which their keys were first written. Writing a known key replaces its
value in place.
-/

namespace Recast

abbrev Assoc (α : Type) := List (String × α)

namespace Assoc

variable {α β : Type}

def get? (entries : Assoc α) (key : String) : Option α :=
  match entries with
  | [] => none
  | (name, value) :: rest => if name = key then some value else get? rest key

def insert (entries : Assoc α) (key : String) (value : α) : Assoc α :=
  match entries with
  | [] => [(key, value)]
  | (name, old) :: rest =>
    if name = key then (name, value) :: rest else (name, old) :: insert rest key value

def insertAll (entries : Assoc α) (pairs : List (String × α)) : Assoc α :=
  pairs.foldl (fun entries pair => insert entries pair.1 pair.2) entries

def ofPairs (pairs : List (String × α)) : Assoc α :=
  insertAll [] pairs

def erase (entries : Assoc α) (key : String) : Assoc α :=
  entries.filter (fun entry => entry.1 != key)

def keys (entries : Assoc α) : List String :=
  entries.map Prod.fst

def mapValues (f : α → β) (entries : Assoc α) : Assoc β :=
  entries.map (fun entry => (entry.1, f entry.2))

@[simp] theorem get?_nil (key : String) : get? ([] : Assoc α) key = none := rfl

theorem get?_insert_self (entries : Assoc α) (key : String) (value : α) :
    get? (insert entries key value) key = some value := by
  induction entries with
  | nil => simp [insert, get?]
  | cons entry rest ih =>
    obtain ⟨name, old⟩ := entry
    by_cases same : name = key
    · simp [insert, get?, same]
    · simp [insert, get?, same, ih]

theorem get?_insert_of_ne (entries : Assoc α) {key other : String} (value : α)
    (ne : key ≠ other) : get? (insert entries key value) other = get? entries other := by
  induction entries with
  | nil => simp [insert, get?, ne]
  | cons entry rest ih =>
    obtain ⟨name, old⟩ := entry
    by_cases same : name = key
    · subst same
      simp [insert, get?, ne]
    · simp [insert, get?, same, ih]

theorem isSome_get?_iff (entries : Assoc α) (key : String) :
    (get? entries key).isSome = true ↔ key ∈ keys entries := by
  induction entries with
  | nil => simp [get?, keys]
  | cons entry rest ih =>
    obtain ⟨name, old⟩ := entry
    by_cases same : name = key
    · simp [get?, keys, same]
    · have other : ¬ key = name := fun equal => same equal.symm
      simpa [get?, keys, same, other] using ih

theorem keys_insert (entries : Assoc α) (key : String) (value : α) :
    keys (insert entries key value) =
      if key ∈ keys entries then keys entries else keys entries ++ [key] := by
  induction entries with
  | nil => simp [insert, keys]
  | cons entry rest ih =>
    obtain ⟨name, old⟩ := entry
    by_cases same : name = key
    · simp [insert, keys, same]
    · have other : ¬ key = name := fun equal => same equal.symm
      simp only [keys] at ih
      by_cases known : key ∈ rest.map Prod.fst <;>
        simp [insert, keys, same, other, known, ih]

theorem nodup_keys_insert {entries : Assoc α} (distinct : (keys entries).Nodup) (key : String)
    (value : α) : (keys (insert entries key value)).Nodup := by
  rw [keys_insert]
  split
  · exact distinct
  · next new =>
    rw [List.nodup_append]
    refine ⟨distinct, by simp, ?_⟩
    intro known isKnown other isOther equal
    rw [List.mem_singleton] at isOther
    exact new (isOther ▸ equal ▸ isKnown)

theorem get?_insert (entries : Assoc α) (key other : String) (value : α) :
    get? (insert entries key value) other =
      if key = other then some value else get? entries other := by
  by_cases same : key = other
  · subst same
    rw [get?_insert_self, if_pos rfl]
  · rw [get?_insert_of_ne entries value same, if_neg same]

theorem get?_append (entries others : Assoc α) (key : String) :
    get? (entries ++ others) key = (get? entries key).or (get? others key) := by
  induction entries with
  | nil => rfl
  | cons entry rest ih =>
    obtain ⟨name, value⟩ := entry
    by_cases same : name = key
    · simp [get?, same]
    · simp [get?, same, ih]

theorem get?_eq_none_iff (entries : Assoc α) (key : String) :
    get? entries key = none ↔ key ∉ keys entries := by
  rw [← isSome_get?_iff]
  cases get? entries key <;> simp

theorem get?_reverse {entries : Assoc α} (distinct : (keys entries).Nodup) (key : String) :
    get? entries.reverse key = get? entries key := by
  induction entries with
  | nil => rfl
  | cons entry rest ih =>
    obtain ⟨name, value⟩ := entry
    obtain ⟨fresh, others⟩ := List.nodup_cons.mp distinct
    rw [List.reverse_cons, get?_append, ih others]
    by_cases same : name = key
    · subst same
      have absent := (get?_eq_none_iff rest name).mpr fresh
      simp [get?, absent]
    · simp [get?, same]

theorem get?_mapValues (f : α → β) (entries : Assoc α) (key : String) :
    get? (mapValues f entries) key = (get? entries key).map f := by
  induction entries with
  | nil => rfl
  | cons entry rest ih =>
    obtain ⟨name, value⟩ := entry
    by_cases same : name = key
    · simp [mapValues, get?, same]
    · simpa [mapValues, get?, same] using ih

@[simp] theorem keys_mapValues (f : α → β) (entries : Assoc α) :
    keys (mapValues f entries) = keys entries := by
  simp [keys, mapValues]

theorem get?_insertAll (entries : Assoc α) (pairs : List (String × α)) (key : String) :
    get? (insertAll entries pairs) key = (get? pairs.reverse key).or (get? entries key) := by
  induction pairs generalizing entries with
  | nil => rfl
  | cons pair rest ih =>
    obtain ⟨name, value⟩ := pair
    have step : insertAll entries ((name, value) :: rest) =
        insertAll (insert entries name value) rest := rfl
    rw [step, ih, get?_insert, List.reverse_cons, get?_append, Option.or_assoc]
    by_cases same : name = key
    · simp [get?, same]
    · simp [get?, same]

theorem keys_insertAll (entries : Assoc α) {pairs : List (String × α)}
    (distinct : (keys pairs).Nodup) :
    keys (insertAll entries pairs) =
      keys entries ++ (keys pairs).filter (fun key => decide (key ∉ keys entries)) := by
  induction pairs generalizing entries with
  | nil => simp [insertAll, keys]
  | cons pair rest ih =>
    obtain ⟨name, value⟩ := pair
    obtain ⟨fresh, others⟩ := List.nodup_cons.mp distinct
    have step : insertAll entries ((name, value) :: rest) =
        insertAll (insert entries name value) rest := rfl
    have first : keys ((name, value) :: rest) = name :: keys rest := rfl
    rw [step, ih _ others, keys_insert, first, List.filter_cons]
    by_cases known : name ∈ keys entries
    · simp [known]
    · have apart : ∀ key ∈ keys rest, (key ∉ keys entries ++ [name]) ↔ key ∉ keys entries := by
        intro key member
        have different : key ≠ name := fun equal => fresh (equal ▸ member)
        simp [different]
      have same : (keys rest).filter (fun key => decide (key ∉ keys entries ++ [name])) =
          (keys rest).filter (fun key => decide (key ∉ keys entries)) :=
        List.filter_congr fun key member => by simp only [apart key member]
      rw [if_neg known, same, if_pos (by simp [known]), List.append_assoc]
      rfl

theorem get?_erase (entries : Assoc α) (key other : String) :
    get? (erase entries key) other = if other = key then none else get? entries other := by
  induction entries with
  | nil => simp [erase]
  | cons entry rest ih =>
    obtain ⟨name, value⟩ := entry
    simp only [erase] at ih
    by_cases dropped : name = key
    · by_cases asked : other = key
      · rw [if_pos asked] at ih ⊢
        simpa [erase, dropped] using ih
      · have different : ¬ key = other := fun equal => asked equal.symm
        simp [erase, get?, dropped, asked, different, ih]
    · by_cases asked : name = other
      · simp [erase, get?, asked, asked ▸ dropped]
      · simp [erase, get?, dropped, asked, ih]

theorem keys_erase (entries : Assoc α) (key : String) :
    keys (erase entries key) = (keys entries).filter (· != key) := by
  simp [keys, erase, List.filter_map, Function.comp_def]

theorem keys_foldl_erase (entries : Assoc α) (dropped : List String) :
    keys (dropped.foldl erase entries) =
      (keys entries).filter (fun key => decide (key ∉ dropped)) := by
  induction dropped generalizing entries with
  | nil => exact (List.filter_eq_self.mpr fun key _ => by simp).symm
  | cons first rest ih =>
    rw [List.foldl_cons, ih, keys_erase, List.filter_filter]
    refine List.filter_congr fun key _ => ?_
    by_cases same : key = first <;> simp [same]

theorem get?_foldl_erase (entries : Assoc α) (dropped : List String) (key : String) :
    get? (dropped.foldl erase entries) key = if key ∈ dropped then none else get? entries key := by
  induction dropped generalizing entries with
  | nil => simp
  | cons first rest ih =>
    rw [List.foldl_cons, ih, get?_erase]
    by_cases later : key ∈ rest
    · simp [later]
    · by_cases same : key = first <;> simp [later, same]

end Assoc

end Recast
