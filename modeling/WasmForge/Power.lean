/-!
# Powers of numbers

Bounds and sizes are powers of natural numbers and of integers, and in definitions
they are meant to be the ones that numbers come with, also where monoids are in scope
and would offer powers of their own.
-/

attribute [default_instance (20000), instance (20000)] instPowNat
