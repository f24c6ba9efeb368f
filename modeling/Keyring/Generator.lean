import Keyring.SigningKey

namespace Keyring

variable [Scheme]

inductive Draw
  | key (k : SigningKey)
  | failed (e : KeyError)
  | crashed (text : String)

def Seed.numbered (n : UInt8) : Seed where
  bytes := (List.range 32).map fun i =>
    if i = 0 then n else n * UInt8.ofNat i + UInt8.ofNat i
  length_bytes := by simp

def SigningKey.numbered (n : UInt8) : SigningKey := SigningKey.ofSeed (Seed.numbered n)

namespace Generator

inductive Item
  | next
  | given (k : Except KeyError SigningKey)
  | crash (text : String)

end Generator

/-- A source of keys for trials: numbered keys in order, after failures or a script if there is
one. -/
inductive Generator
  | numbered (next : UInt8)
  | failing (left : UInt32) (next : UInt8)
  | scripted (items : List Generator.Item) (next : UInt8)

namespace Generator

def first : UInt8 := 1

def failingFirst (failures : UInt32) : Generator := .failing failures first

def alwaysFailing : Generator := failingFirst 0xFFFFFFFF

def scriptOf (items : List Item) : Generator := .scripted items first

/-- The next answer. A failure uses up no number. -/
def draw : Generator → Draw × Generator
  | .numbered n => (.key (.numbered n), .numbered (n + 1))
  | .failing left n =>
      if left = 0 then (.key (.numbered n), .failing left (n + 1))
      else (.failed (.crypto "entropy source exhausted"), .failing (left - 1) n)
  | .scripted [] n => (.key (.numbered n), .scripted [] (n + 1))
  | .scripted (.next :: items) n => (.key (.numbered n), .scripted items (n + 1))
  | .scripted (.given (.ok k) :: items) n => (.key k, .scripted items n)
  | .scripted (.given (.error e) :: items) n => (.failed e, .scripted items n)
  | .scripted (.crash text :: items) n => (.crashed text, .scripted items n)

end Generator

end Keyring
